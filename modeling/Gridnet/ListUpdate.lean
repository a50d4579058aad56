import Mathlib.Algebra.BigOperators.Group.List.Basic
import Mathlib.Data.List.Nodup

/-! Lists of entries. Updating one entry in place: what a property of every entry, a measure of the
whole list and the other entries keep. Finding an entry by its key. -/

namespace ListUpdate

variable {α β : Type*} {l : List α} {i : ℕ} {f : α → α}

/-- Updating the entry that was appended last. -/
theorem modify_concat (l : List α) (a : α) :
    (l ++ [a]).modify l.length f = l ++ [f a] := by
  induction l with
  | nil => rfl
  | cons b l ih => exact congrArg (b :: ·) ih

/-- Only what an update does to the entry it rewrites counts. -/
theorem modify_congr {g : α → α} {a : α} (hentry : l[i]? = some a) (hsame : f a = g a) :
    l.modify i f = l.modify i g := by
  refine List.ext_getElem? fun j => ?_
  rw [List.getElem?_modify, List.getElem?_modify]
  by_cases hij : i = j
  · subst hij
    rw [hentry, Option.map_eq_map, Option.map_eq_map, Option.map_some, Option.map_some,
      if_pos rfl, if_pos rfl, hsame]
  · simp only [if_neg hij]

/-- An update seen through `g` is an update of what `g` shows. -/
theorem map_modify {g : α → β} {h : β → β} (hshow : ∀ a, g (f a) = h (g a)) :
    (l.modify i f).map g = (l.map g).modify i h := by
  induction l generalizing i with
  | nil => simp
  | cons a l ih =>
      cases i with
      | zero => simp [hshow]
      | succ i => simp [ih]

/-- An update that `g` does not show at the entry it rewrites is not shown at all. -/
theorem map_modify_of_eq {g : α → β} {a : α} (hentry : l[i]? = some a) (hsame : g (f a) = g a) :
    (l.modify i f).map g = l.map g := by
  refine List.ext_getElem? fun j => ?_
  rw [List.getElem?_map, List.getElem?_map, List.getElem?_modify]
  by_cases hij : i = j
  · subst hij
    simp [hentry, hsame]
  · simp [hij]

/-- An update that keeps a property of the entry it rewrites keeps it of every entry. -/
theorem forall_mem_modify {P : α → Prop} (hkeep : ∀ a, l[i]? = some a → P a → P (f a))
    (hall : ∀ a ∈ l, P a) : ∀ a ∈ l.modify i f, P a := by
  intro a ha
  obtain ⟨j, hj⟩ := List.mem_iff_getElem?.mp ha
  rw [List.getElem?_modify] at hj
  cases hentry : l[j]? with
  | none => simp [hentry] at hj
  | some b =>
      have hb : P b := hall b (List.mem_of_getElem? hentry)
      rw [hentry, Option.map_eq_map, Option.map_some, Option.some_inj] at hj
      by_cases hij : i = j
      · subst hij
        rw [if_pos rfl] at hj
        exact hj ▸ hkeep b hentry hb
      · rw [if_neg hij] at hj
        exact hj ▸ hb

/-- An update moves a sum over the list by what it moves at the entry it rewrites. -/
theorem sum_map_modify {M : Type*} [AddCommMonoid M] (g : α → M) {a : α} {m : M}
    (hentry : l[i]? = some a) (hmove : g (f a) = g a + m) :
    ((l.modify i f).map g).sum = (l.map g).sum + m := by
  induction l generalizing i with
  | nil => simp at hentry
  | cons b l ih =>
      cases i with
      | zero =>
          rw [List.getElem?_cons_zero, Option.some_inj] at hentry
          subst hentry
          rw [List.modify_zero_cons, List.map_cons, List.sum_cons, hmove, List.map_cons,
            List.sum_cons, add_right_comm]
      | succ i =>
          rw [List.getElem?_cons_succ] at hentry
          rw [List.modify_succ_cons, List.map_cons, List.sum_cons, ih hentry, List.map_cons,
            List.sum_cons, add_assoc]

/-- Where keys are distinct, a search by the key of a member finds the member. -/
theorem find?_key_eq [DecidableEq β] (key : α → β)
    (hnodup : (l.map key).Nodup) {a : α} (ha : a ∈ l) :
    l.find? (fun b => key b = key a) = some a := by
  cases hfind : l.find? (fun b => key b = key a) with
  | none => exact absurd (decide_eq_true rfl) (List.find?_eq_none.mp hfind a ha)
  | some b =>
      have hkey : key b = key a := by simpa using List.find?_some hfind
      rw [List.inj_on_of_nodup_map hnodup (List.mem_of_find?_eq_some hfind) ha hkey]

end ListUpdate
