import Mathlib.Data.List.Basic
import Mathlib.Data.List.Induction
import Mathlib.Data.List.Pairwise
import Mathlib.Data.List.TakeWhile
import Mathlib.Data.Nat.Basic
import Mathlib.Order.Basic
import Mathlib.Tactic.Common

/-! Ranges of positions, the parts of a list that positions select, and the greatest element up
to a bound of a sorted list. -/

namespace Gridnet.Ranges

/-! ### Consecutive ranges -/

/-- The ranges follow each other from `a` to `b`. -/
def Cover : List (ℕ × ℕ) → ℕ → ℕ → Prop
  | [], a, b => a = b
  | range :: l, a, b => range.1 = a ∧ range.1 ≤ range.2 ∧ Cover l range.2 b

variable {l l' : List (ℕ × ℕ)} {a b c : ℕ}

theorem cover_append : Cover (l ++ l') a c ↔ ∃ b, Cover l a b ∧ Cover l' b c := by
  induction l generalizing a with
  | nil => simp [Cover]
  | cons range l ih =>
      rw [List.cons_append]
      simp only [Cover, ih]
      constructor
      · rintro ⟨hstart, hle, b, hl, hl'⟩
        exact ⟨b, ⟨hstart, hle, hl⟩, hl'⟩
      · rintro ⟨b, ⟨hstart, hle, hl⟩, hl'⟩
        exact ⟨hstart, hle, b, hl, hl'⟩

theorem cover_single {range : ℕ × ℕ} (hstart : range.1 = a) (hend : range.2 = b) (hle : a ≤ b) :
    Cover [range] a b := by
  subst hstart hend
  exact ⟨rfl, hle, rfl⟩

theorem Cover.le (hcover : Cover l a b) : a ≤ b := by
  induction l generalizing a with
  | nil => exact hcover.le
  | cons range l ih =>
      obtain ⟨hstart, hle, hrest⟩ := hcover
      exact hstart ▸ hle.trans (ih hrest)

/-- The part of a list at the positions of a range. -/
def slice {α : Type} (xs : List α) (range : ℕ × ℕ) : List α := (xs.take range.2).drop range.1

theorem slice_append {α : Type} (xs : List α) (hab : a ≤ b) (hbc : b ≤ c) :
    slice xs (a, b) ++ slice xs (b, c) = slice xs (a, c) := by
  unfold slice
  have htake : (xs.take c).take b = xs.take b := by rw [List.take_take, min_eq_left hbc]
  have hsplit : (xs.take c).drop b = ((xs.take c).drop a).drop (b - a) := by
    rw [List.drop_drop, Nat.add_sub_cancel' hab]
  have hfront : (xs.take b).drop a = ((xs.take c).drop a).take (b - a) := by
    rw [← htake, List.drop_take]
  rw [hsplit, hfront, List.take_append_drop]

theorem slice_self {α : Type} (xs : List α) : slice xs (a, a) = [] := by
  unfold slice
  apply List.drop_eq_nil_of_le
  rw [List.length_take]
  exact min_le_left _ _

/-- Consecutive ranges select the parts of one range, in order. -/
theorem Cover.flatMap_slice {α : Type} (xs : List α) (hcover : Cover l a b) :
    l.flatMap (slice xs) = slice xs (a, b) := by
  induction l generalizing a with
  | nil =>
      cases hcover
      rw [slice_self]
      rfl
  | cons range l ih =>
      obtain ⟨rfl, hle, hrest⟩ := hcover
      rw [List.flatMap_cons, ih hrest]
      exact slice_append xs hle hrest.le

/-- A position between the ends lies in one of the ranges. -/
theorem Cover.mem (hcover : Cover l a b) {i : ℕ} (ha : a ≤ i) (hb : i < b) :
    ∃ range ∈ l, range.1 ≤ i ∧ i < range.2 := by
  induction l generalizing a with
  | nil =>
      cases hcover
      omega
  | cons range l ih =>
      obtain ⟨rfl, hle, hrest⟩ := hcover
      by_cases hi : i < range.2
      · exact ⟨range, List.mem_cons_self, ha, hi⟩
      · obtain ⟨range', hmem, hrange'⟩ := ih hrest (by omega)
        exact ⟨range', List.mem_cons_of_mem _ hmem, hrange'⟩

/-- No range reaches outside the ends. -/
theorem Cover.within (hcover : Cover l a b) {range : ℕ × ℕ} (hmem : range ∈ l) :
    a ≤ range.1 ∧ range.1 ≤ range.2 ∧ range.2 ≤ b := by
  induction l generalizing a with
  | nil => cases hmem
  | cons first l ih =>
      obtain ⟨rfl, hle, hrest⟩ := hcover
      cases hmem with
      | head => exact ⟨le_rfl, hle, hrest.le⟩
      | tail _ hmem =>
          obtain ⟨hfrom, hrange, hto⟩ := ih hrest hmem
          exact ⟨hle.trans hfrom, hrange, hto⟩

/-! ### Sorted lists -/

variable {keys : List ℕ} {bound : ℕ}

/-- The number of leading elements up to a bound. -/
def countUpTo (keys : List ℕ) (bound : ℕ) : ℕ := (keys.takeWhile fun key => key ≤ bound).length

theorem countUpTo_le_length : countUpTo keys bound ≤ keys.length :=
  (List.takeWhile_prefix _).length_le

/-- The elements up to the bound come first. -/
theorem lt_countUpTo_iff (hsorted : keys.Pairwise (· ≤ ·)) (bound : ℕ) {i : ℕ} (hi : i < keys.length) :
    i < countUpTo keys bound ↔ keys[i] ≤ bound := by
  unfold countUpTo
  induction keys generalizing i with
  | nil => cases hi
  | cons first keys ih =>
      rw [List.pairwise_cons] at hsorted
      rw [List.takeWhile_cons]
      by_cases hfirst : first ≤ bound
      · rw [if_pos (by simpa using hfirst)]
        cases i with
        | zero => simpa using hfirst
        | succ i =>
            rw [List.length_cons, Nat.succ_lt_succ_iff, List.getElem_cons_succ]
            exact ih hsorted.2 (Nat.lt_of_succ_lt_succ hi)
      · rw [if_neg (by simpa using hfirst)]
        constructor
        · intro hlt
          cases hlt
        · intro hle
          exfalso
          cases i with
          | zero => exact hfirst hle
          | succ i =>
              have hmore := hsorted.1 _ (List.getElem_mem (Nat.lt_of_succ_lt_succ hi))
              exact hfirst (hmore.trans hle)

theorem countUpTo_lt_iff (hsorted : keys.Pairwise (· ≤ ·)) :
    countUpTo keys bound < keys.length ↔ ∃ key ∈ keys, bound < key := by
  constructor
  · intro hlt
    refine ⟨keys[countUpTo keys bound], List.getElem_mem hlt, ?_⟩
    have hnot := (lt_countUpTo_iff hsorted bound hlt).not.mp (lt_irrefl _)
    omega
  · rintro ⟨key, hmem, hlt⟩
    obtain ⟨i, hi, rfl⟩ := List.mem_iff_getElem.mp hmem
    have hnot := (lt_countUpTo_iff hsorted bound hi).not.mpr (by omega)
    omega

theorem countUpTo_pos_iff (hsorted : keys.Pairwise (· ≤ ·)) :
    countUpTo keys bound ≠ 0 ↔ ∃ key ∈ keys, key ≤ bound := by
  have hle : countUpTo keys bound ≤ keys.length := countUpTo_le_length
  constructor
  · intro hne
    have hlt : 0 < keys.length := by omega
    exact ⟨keys[0], List.getElem_mem hlt, (lt_countUpTo_iff hsorted bound hlt).mp (by omega)⟩
  · rintro ⟨key, hmem, hkey⟩
    obtain ⟨i, hi, rfl⟩ := List.mem_iff_getElem.mp hmem
    have hlt := (lt_countUpTo_iff hsorted bound hi).mpr hkey
    omega

theorem countUpTo_mono {bound' : ℕ} (hle : bound ≤ bound') :
    countUpTo keys bound ≤ countUpTo keys bound' := by
  unfold countUpTo
  induction keys with
  | nil => exact le_rfl
  | cons first keys ih =>
      rw [List.takeWhile_cons, List.takeWhile_cons]
      by_cases hfirst : first ≤ bound
      · rw [if_pos (by simpa using hfirst), if_pos (by simpa using hfirst.trans hle)]
        exact Nat.succ_le_succ ih
      · rw [if_neg (by simpa using hfirst)]
        exact Nat.zero_le _

/-- The element before the first that is above the bound. -/
def greatestUpTo (keys : List ℕ) (bound : ℕ) : ℕ := keys.getD (countUpTo keys bound - 1) 0

/-- It is the greatest up to the bound. -/
theorem greatestUpTo_spec (hsorted : keys.Pairwise (· ≤ ·)) (hsome : ∃ key ∈ keys, key ≤ bound) :
    greatestUpTo keys bound ∈ keys ∧ greatestUpTo keys bound ≤ bound ∧
      ∀ key ∈ keys, key ≤ bound → key ≤ greatestUpTo keys bound := by
  have hpos := (countUpTo_pos_iff hsorted).mpr hsome
  have hle : countUpTo keys bound ≤ keys.length := countUpTo_le_length
  have hlt : countUpTo keys bound - 1 < keys.length := by omega
  have hget : greatestUpTo keys bound = keys[countUpTo keys bound - 1] := by
    unfold greatestUpTo
    simp [List.getD, hlt]
  rw [hget]
  refine ⟨List.getElem_mem hlt, (lt_countUpTo_iff hsorted bound hlt).mp (by omega), ?_⟩
  intro key hkey hbound
  obtain ⟨i, hi, rfl⟩ := List.mem_iff_getElem.mp hkey
  have hi' := (lt_countUpTo_iff hsorted bound hi).mpr hbound
  rcases Nat.lt_or_eq_of_le (show i ≤ countUpTo keys bound - 1 by omega) with hbefore | heq
  · exact List.pairwise_iff_getElem.mp hsorted i _ hi hlt hbefore
  · simp [heq]

end Gridnet.Ranges
