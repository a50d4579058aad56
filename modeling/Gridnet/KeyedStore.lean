import Mathlib.Data.List.Pairwise
import Mathlib.Tactic.SplitIfs

/-! Stores of values under keys that may reject what is to be saved. What is saved under a key replaces what was there,
so that several values are all kept exactly if their keys differ. -/

/-- A store with states `σ`. -/
structure KeyedStore (σ K V : Type*) where
  load : σ → K → Option V
  save : σ → K → V → Bool × σ
  load_saved : ∀ {s k v}, (save s k v).1 = true → load (save s k v).2 k = some v
  load_rejected : ∀ {s k v}, (save s k v).1 = false → load (save s k v).2 k = load s k
  load_other : ∀ {s k k' v}, k' ≠ k → load (save s k v).2 k' = load s k'

namespace KeyedStore

variable {σ K V : Type*} (S : KeyedStore σ K V)

/-- Saves one pair after the other; the pairs that were accepted, and the state at the end. -/
def saveAll : σ → List (K × V) → List (K × V) × σ
  | s, [] => ([], s)
  | s, w :: ws =>
      let saved := S.save s w.1 w.2
      let rest := saveAll saved.2 ws
      (if saved.1 then w :: rest.1 else rest.1, rest.2)

variable [DecidableEq K]

/-- What is under a key behind these writes. -/
def overwrite (k : K) (before : Option V) (writes : List (K × V)) : Option V :=
  writes.foldl (fun v w => if w.1 = k then some w.2 else v) before

theorem overwrite_cons (k : K) (before : Option V) (w : K × V) (writes : List (K × V)) :
    overwrite k before (w :: writes) = overwrite k (if w.1 = k then some w.2 else before) writes := rfl

/-- A store holds what was accepted last, and what it held before where nothing was. -/
theorem load_saveAll (s : σ) (ws : List (K × V)) (k : K) :
    S.load (S.saveAll s ws).2 k = overwrite k (S.load s k) (S.saveAll s ws).1 := by
  induction ws generalizing s with
  | nil => rfl
  | cons w ws ih =>
      rw [saveAll]
      dsimp only
      rw [ih]
      cases hsaved : (S.save s w.1 w.2).1 with
      | true =>
          rw [if_pos rfl, overwrite_cons]
          split_ifs with hkey
          · rw [← hkey, S.load_saved hsaved]
          · rw [S.load_other (Ne.symm hkey)]
      | false =>
          rw [if_neg Bool.false_ne_true]
          by_cases hkey : k = w.1
          · rw [hkey, S.load_rejected hsaved]
          · rw [S.load_other hkey]

variable {writes : List (K × V)} {k : K} {before : Option V}

theorem overwrite_of_untouched (huntouched : ∀ w ∈ writes, w.1 ≠ k) : overwrite k before writes = before := by
  induction writes generalizing before with
  | nil => rfl
  | cons w writes ih =>
      obtain ⟨hw, hrest⟩ := List.forall_mem_cons.mp huntouched
      rw [overwrite_cons, if_neg hw]
      exact ih hrest

/-- Behind a write under the key there is the value of such a write. -/
theorem overwrite_of_written (before : Option V) (hwritten : ∃ w ∈ writes, w.1 = k) :
    ∃ w ∈ writes, w.1 = k ∧ overwrite k before writes = some w.2 := by
  induction writes generalizing before with
  | nil =>
      obtain ⟨w, hw, -⟩ := hwritten
      exact absurd hw List.not_mem_nil
  | cons w writes ih =>
      rw [overwrite_cons]
      by_cases hlater : ∃ w ∈ writes, w.1 = k
      · obtain ⟨w', hmem, hkey, hvalue⟩ := ih _ hlater
        exact ⟨w', List.mem_cons_of_mem w hmem, hkey, hvalue⟩
      · have hkey : w.1 = k := by
          obtain ⟨w', hmem, hkey⟩ := hwritten
          rcases List.mem_cons.mp hmem with rfl | hmem
          · exact hkey
          · exact absurd ⟨w', hmem, hkey⟩ hlater
        rw [if_pos hkey]
        exact ⟨w, List.mem_cons_self, hkey, overwrite_of_untouched fun w' hmem hk => hlater ⟨w', hmem, hk⟩⟩

/-- Of values that differ each is kept exactly if no two have one key. -/
theorem kept_iff (before : K → Option V) (hvalues : writes.Pairwise fun a b => a.2 ≠ b.2) :
    (∀ w ∈ writes, overwrite w.1 (before w.1) writes = some w.2) ↔ writes.Pairwise fun a b => a.1 ≠ b.1 := by
  induction writes generalizing before with
  | nil => exact iff_of_true (fun w hw => absurd hw List.not_mem_nil) List.Pairwise.nil
  | cons w writes ih =>
      obtain ⟨hfirst, hothers⟩ := List.pairwise_cons.mp hvalues
      rw [List.forall_mem_cons, List.pairwise_cons, ← ih (fun k => if w.1 = k then some w.2 else before k) hothers]
      refine and_congr ?_ Iff.rfl
      rw [overwrite_cons, if_pos rfl]
      constructor
      · intro hkept w' hmem hkey
        obtain ⟨last, hlast, -, hvalue⟩ := overwrite_of_written (some w.2) ⟨w', hmem, hkey.symm⟩
        exact hfirst last hlast (Option.some.inj (hkept.symm.trans hvalue))
      · exact fun hkeys => overwrite_of_untouched fun w' hmem => (hkeys w' hmem).symm

end KeyedStore
