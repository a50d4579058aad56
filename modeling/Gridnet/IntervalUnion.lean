import Mathlib.Data.Int.ConditionallyCompleteOrder
import Mathlib.Data.Int.Interval
import Mathlib.Data.Set.Card
import Mathlib.Order.Interval.Set.LinearOrder

/-! Unions of half-open intervals. Intervals in the order of their beginnings are merged into separated ones that cover
the same points, so that their lengths add up to the number of the points. -/

namespace Intervals

section Cover

variable {α : Type*} [LinearOrder α]

/-- The points of half-open intervals. -/
def covered (intervals : List (α × α)) : Set α :=
  {x | ∃ interval ∈ intervals, x ∈ Set.Ico interval.1 interval.2}

/-- The interval that is growing takes in those that begin before it ends. -/
def mergeFrom (current : α × α) : List (α × α) → List (α × α)
  | [] => [current]
  | interval :: rest =>
      if interval.1 ≤ current.2 then mergeFrom (current.1, max current.2 interval.2) rest
      else current :: mergeFrom interval rest

def merge : List (α × α) → List (α × α)
  | [] => []
  | first :: rest => mergeFrom first rest

theorem covered_nil : covered ([] : List (α × α)) = ∅ := by
  ext x
  simp [covered]

theorem covered_cons (interval : α × α) (rest : List (α × α)) :
    covered (interval :: rest) = Set.Ico interval.1 interval.2 ∪ covered rest := by
  ext x
  simp [covered]

theorem covered_perm {first second : List (α × α)} (hperm : first.Perm second) : covered first = covered second := by
  ext x
  simp only [covered, Set.mem_ofPred_eq, hperm.mem_iff]

theorem covered_eq_empty_iff {intervals : List (α × α)} (hproper : ∀ interval ∈ intervals, interval.1 < interval.2) :
    covered intervals = ∅ ↔ intervals = [] := by
  constructor
  · intro hempty
    refine List.eq_nil_iff_forall_not_mem.mpr fun interval hmem => ?_
    have hfirst : interval.1 ∈ covered intervals := ⟨interval, hmem, le_rfl, hproper interval hmem⟩
    rw [hempty] at hfirst
    exact hfirst
  · rintro rfl
    exact covered_nil

variable {current : α × α} {rest : List (α × α)}

/-- Intervals that begin one after the other and are not empty. -/
structure Ordered (intervals : List (α × α)) : Prop where
  sorted : intervals.Pairwise fun a b => a.1 ≤ b.1
  proper : ∀ interval ∈ intervals, interval.1 < interval.2

theorem Ordered.tail {interval : α × α} (h : Ordered (interval :: rest)) : Ordered rest where
  sorted := (List.pairwise_cons.mp h.sorted).2
  proper := fun i hi => h.proper i (List.mem_cons_of_mem _ hi)

/-- The interval that is growing may take in the next one. -/
theorem Ordered.grow {interval : α × α} (h : Ordered (current :: interval :: rest)) :
    Ordered ((current.1, max current.2 interval.2) :: rest) where
  sorted := by
    obtain ⟨hfirst, hrest⟩ := List.pairwise_cons.mp h.sorted
    exact List.pairwise_cons.mpr ⟨fun i hi => hfirst i (List.mem_cons_of_mem _ hi), (List.pairwise_cons.mp hrest).2⟩
  proper := by
    refine List.forall_mem_cons.mpr ⟨?_, h.tail.tail.proper⟩
    exact (h.proper current List.mem_cons_self).trans_le (le_max_left ..)

theorem covered_mergeFrom (h : Ordered (current :: rest)) :
    covered (mergeFrom current rest) = covered (current :: rest) := by
  induction rest generalizing current with
  | nil => rfl
  | cons interval rest ih =>
      unfold mergeFrom
      split_ifs with hmeets
      · rw [ih h.grow, covered_cons, covered_cons, covered_cons, ← Set.union_assoc]
        have hbegins : current.1 ≤ interval.1 := (List.pairwise_cons.mp h.sorted).1 interval List.mem_cons_self
        have hproper := h.proper interval (List.mem_cons_of_mem _ List.mem_cons_self)
        rw [Set.Ico_union_Ico' hmeets (hbegins.trans hproper.le), min_eq_left hbegins]
      · rw [covered_cons, ih h.tail, ← covered_cons]

theorem mergeFrom_begins (h : Ordered (current :: rest)) :
    ∀ interval ∈ mergeFrom current rest, current.1 ≤ interval.1 := by
  induction rest generalizing current with
  | nil => exact fun interval hmem => (List.mem_singleton.mp hmem).symm ▸ le_rfl
  | cons next rest ih =>
      unfold mergeFrom
      split_ifs
      · exact ih h.grow
      · refine List.forall_mem_cons.mpr ⟨le_rfl, fun interval hmem => ?_⟩
        exact ((List.pairwise_cons.mp h.sorted).1 next List.mem_cons_self).trans (ih h.tail interval hmem)

/-- What is merged is separated. -/
structure Separated (intervals : List (α × α)) : Prop where
  apart : intervals.Pairwise fun a b => a.2 < b.1
  proper : ∀ interval ∈ intervals, interval.1 < interval.2

theorem separated_mergeFrom (h : Ordered (current :: rest)) : Separated (mergeFrom current rest) := by
  induction rest generalizing current with
  | nil => exact ⟨List.pairwise_singleton .., h.proper⟩
  | cons next rest ih =>
      unfold mergeFrom
      split_ifs with hmeets
      · exact ih h.grow
      · refine ⟨List.pairwise_cons.mpr ⟨fun interval hmem => ?_, (ih h.tail).apart⟩,
          List.forall_mem_cons.mpr ⟨h.proper current List.mem_cons_self, (ih h.tail).proper⟩⟩
        exact (not_le.mp hmeets).trans_le (mergeFrom_begins h.tail interval hmem)

theorem covered_merge {intervals : List (α × α)} (h : Ordered intervals) :
    covered (merge intervals) = covered intervals := by
  cases intervals with
  | nil => rfl
  | cons first rest => exact covered_mergeFrom h

theorem separated_merge {intervals : List (α × α)} (h : Ordered intervals) : Separated (merge intervals) := by
  cases intervals with
  | nil => exact ⟨List.Pairwise.nil, h.proper⟩
  | cons first rest => exact separated_mergeFrom h

end Cover

/-! ### Lengths -/

theorem finite_covered (intervals : List (ℤ × ℤ)) : (covered intervals).Finite := by
  induction intervals with
  | nil =>
      rw [covered_nil]
      exact Set.finite_empty
  | cons interval rest ih =>
      rw [covered_cons]
      exact (Set.finite_Ico ..).union ih

/-- The lengths of separated intervals add up to the number of their points. -/
theorem Separated.ncard_covered {intervals : List (ℤ × ℤ)} (h : Separated intervals) :
    ((covered intervals).ncard : ℤ) = (intervals.map fun interval => interval.2 - interval.1).sum := by
  induction intervals with
  | nil => simp [covered_nil]
  | cons interval rest ih =>
      obtain ⟨hapart, hrest⟩ := List.pairwise_cons.mp h.apart
      obtain ⟨hproper, hrestProper⟩ := List.forall_mem_cons.mp h.proper
      have hdisjoint : Disjoint (Set.Ico interval.1 interval.2) (covered rest) := by
        refine Set.disjoint_left.mpr fun x hx hcovered => ?_
        obtain ⟨other, hmem, hother⟩ := hcovered
        exact absurd (hx.2.trans (hapart other hmem)) (not_lt.mpr hother.1)
      rw [covered_cons, Set.ncard_union_eq hdisjoint (Set.finite_Ico ..) (finite_covered rest), Nat.cast_add,
        ih ⟨hrest, hrestProper⟩, List.map_cons, List.sum_cons, ← Finset.coe_Ico, Set.ncard_coe_finset,
        Int.card_Ico, Int.toNat_of_nonneg (sub_nonneg.mpr hproper.le)]

/-- The lengths of merged intervals. -/
theorem sum_merge {intervals : List (ℤ × ℤ)} (h : Ordered intervals) :
    ((merge intervals).map fun interval => interval.2 - interval.1).sum = (covered intervals).ncard := by
  rw [← (separated_merge h).ncard_covered, covered_merge h]

end Intervals
