import Mathlib.Data.List.Perm.Basic
import Mathlib.Logic.Function.Basic

/-! Indexes of a list by a key: partial maps that lead from a key to the one element with it. What an
insertion and a removal do to the list, one update does to the index. -/

variable {α κ : Type*}

/-- The map leads from a key to an element exactly if the element is in the list and has the key. -/
def IndexOf (l : List α) (key : α → κ) (index : κ → Option α) : Prop :=
  ∀ k a, index k = some a ↔ a ∈ l ∧ key a = k

namespace IndexOf

variable {l l' : List α} {key key' : α → κ} {index : κ → Option α}

theorem nil (key : α → κ) : IndexOf ([] : List α) key fun _ => none := by
  intro k a
  simp

theorem some_iff (hindex : IndexOf l key index) {k : κ} {a : α} :
    index k = some a ↔ a ∈ l ∧ key a = k :=
  hindex k a

/-- Every element is found under its key. -/
theorem found (hindex : IndexOf l key index) {a : α} (ha : a ∈ l) : index (key a) = some a :=
  hindex.some_iff.mpr ⟨ha, rfl⟩

theorem notMem_of_none (hindex : IndexOf l key index) {a : α} (hfree : index (key a) = none) : a ∉ l := by
  intro ha
  rw [hindex.found ha] at hfree
  cases hfree

theorem perm (hindex : IndexOf l key index) (hperm : l.Perm l') : IndexOf l' key index := by
  intro k a
  rw [hindex.some_iff, hperm.mem_iff]

/-- Only the keys of the elements matter. -/
theorem congr (hindex : IndexOf l key index) (hkeys : ∀ a ∈ l, key' a = key a) :
    IndexOf l key' index := by
  intro k a
  rw [hindex.some_iff]
  constructor
  · rintro ⟨ha, hk⟩
    exact ⟨ha, (hkeys a ha).trans hk⟩
  · rintro ⟨ha, hk⟩
    exact ⟨ha, (hkeys a ha).symm.trans hk⟩

variable [DecidableEq κ]

/-- An element whose key is free enters the index. -/
theorem cons (hindex : IndexOf l key index) {a : α} (hfree : index (key a) = none) :
    IndexOf (a :: l) key (Function.update index (key a) (some a)) := by
  intro k b
  by_cases hk : k = key a
  · subst hk
    rw [Function.update_self, List.mem_cons]
    constructor
    · rintro hb
      cases hb
      exact ⟨.inl rfl, rfl⟩
    · rintro ⟨rfl | hb, hkey⟩
      · rfl
      · rw [← hkey, hindex.found hb] at hfree
        cases hfree
  · rw [Function.update_of_ne hk, hindex.some_iff, List.mem_cons]
    constructor
    · rintro ⟨hb, hkey⟩
      exact ⟨.inr hb, hkey⟩
    · rintro ⟨rfl | hb, hkey⟩
      · exact absurd hkey.symm hk
      · exact ⟨hb, hkey⟩

/-- An element leaves the index with its key. -/
theorem of_cons {a : α} (hindex : IndexOf (a :: l) key index) (ha : a ∉ l) :
    IndexOf l key (Function.update index (key a) none) := by
  intro k b
  by_cases hk : k = key a
  · subst hk
    rw [Function.update_self]
    refine iff_of_false (by simp) ?_
    rintro ⟨hb, hkey⟩
    have hfound := hindex.found (List.mem_cons_of_mem a hb)
    rw [hkey, hindex.found List.mem_cons_self] at hfound
    cases hfound
    exact ha hb
  · rw [Function.update_of_ne hk, hindex.some_iff, List.mem_cons]
    constructor
    · rintro ⟨rfl | hb, hkey⟩
      · exact absurd hkey.symm hk
      · exact ⟨hb, hkey⟩
    · rintro ⟨hb, hkey⟩
      exact ⟨.inr hb, hkey⟩

end IndexOf
