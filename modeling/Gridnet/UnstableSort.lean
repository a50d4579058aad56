import Mathlib.Data.List.Basic

/-! Sorting as a standard library promises it: a permutation in which no element comes before a smaller one. What
order equal elements come in is left open, so that a result about every such sort holds whichever is used. -/

/-- A comparison that a sort may be asked for. -/
structure StrictWeak {α : Type*} (less : α → α → Bool) : Prop where
  asymm : ∀ a b, less a b = true → less b a = false
  trans : ∀ a b c, less a b = false → less b c = false → less a c = false

structure UnstableSort (α : Type*) where
  sort : (α → α → Bool) → List α → List α
  perm : ∀ less l, (sort less l).Perm l
  sorted : ∀ less, StrictWeak less → ∀ l, (sort less l).Pairwise fun a b => less b a = false

variable {α : Type*}

theorem List.pair_sublist_of_pairwise {R : α → α → Prop} {l : List α} (hl : l.Pairwise R) {a b : α} (ha : a ∈ l)
    (hb : b ∈ l) (hne : a ≠ b) (hba : ¬R b a) : [a, b].Sublist l := by
  obtain ⟨before, after, rfl⟩ := List.append_of_mem ha
  rcases List.mem_append.mp hb with hbefore | hafter
  · exact absurd ((List.pairwise_append.mp hl).2.2 b hbefore a List.mem_cons_self) hba
  · have hmem := (List.mem_cons.mp hafter).resolve_left (Ne.symm hne)
    exact ((List.singleton_sublist.mpr hmem).cons_cons a).trans (List.sublist_append_right _ _)

theorem List.exists_split_of_pair_sublist {a b : α} {l : List α} (h : [a, b].Sublist l) :
    ∃ before after, l = before ++ a :: after ∧ b ∈ after := by
  obtain ⟨front, back, rfl, ha, hb⟩ := List.cons_sublist_iff.mp h
  obtain ⟨before, after, rfl⟩ := List.append_of_mem ha
  exact ⟨before, after ++ back, by simp, List.mem_append_right _ (List.singleton_sublist.mp hb)⟩

namespace UnstableSort

variable {le : α → α → Bool}

/-- The sort that puts the elements in some order first and then keeps that order among equal ones. -/
def breakingTies (le : α → α → Bool) : UnstableSort α where
  sort less l := (l.mergeSort le).mergeSort fun a b => !less b a
  perm less l := (List.mergeSort_perm _ _).trans (List.mergeSort_perm _ _)
  sorted less hless l := by
    refine (@List.pairwise_mergeSort α (fun a b => !less b a) (fun a b c hab hbc => ?_) (fun a b => ?_) _).imp
      fun hle => by simpa using hle
    · simp only [Bool.not_eq_true'] at hab hbc ⊢
      exact hless.trans c b a hbc hab
    · cases hab : less a b with
      | false => simp
      | true => simp [hless.asymm a b hab]

theorem pair_sublist_breakingTies (htrans : ∀ a b c, le a b = true → le b c = true → le a c = true)
    (htotal : ∀ a b, (le a b || le b a) = true) {less : α → α → Bool} (hless : StrictWeak less) {l : List α} {a b : α}
    (ha : a ∈ l) (hb : b ∈ l) (hle : le b a = false) (hless' : less b a = false) :
    [a, b].Sublist ((breakingTies le).sort less l) := by
  have hne : a ≠ b := by
    rintro rfl
    have := htotal a a
    simp [hle] at this
  have hfirst : [a, b].Sublist (l.mergeSort le) :=
    List.pair_sublist_of_pairwise (List.pairwise_mergeSort htrans htotal l) (List.mem_mergeSort.mpr ha)
      (List.mem_mergeSort.mpr hb) hne (by simp [hle])
  refine List.pair_sublist_mergeSort (fun x y z hxy hyz => ?_) (fun x y => ?_) (by simp [hless']) hfirst
  · simp only [Bool.not_eq_true'] at hxy hyz ⊢
    exact hless.trans z y x hyz hxy
  · cases hxy : less x y with
    | false => simp
    | true => simp [hless.asymm x y hxy]

end UnstableSort
