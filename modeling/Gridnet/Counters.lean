import Mathlib.Data.List.Nodup

/-! Counters that never fall, and events of which each raises the counter of one owner to a value that
it was below. No such event occurs twice, over any run. -/

/-- A counter for each owner that has one. -/
abbrev Counters (α : Type*) := α → Option ℕ

namespace Counters

variable {α : Type*} {c c' c'' : Counters α} {a : α} {k n : ℕ} {events events' : List (α × ℕ)}

/-- No counter is lost, and none falls. -/
def Grow (c c' : Counters α) : Prop := ∀ a k, c a = some k → ∃ k', c' a = some k' ∧ k ≤ k'

/-- A run of counters that grow, in which each event `(a, n)` raises the counter of `a` to `n`. -/
inductive Spends : Counters α → List (α × ℕ) → Counters α → Prop
  | done (c : Counters α) : Spends c [] c
  | grow {c c' c'' : Counters α} {events : List (α × ℕ)} (hgrow : c.Grow c')
      (hrest : Spends c' events c'') : Spends c events c''
  | spend {c c' c'' : Counters α} {a : α} {k n : ℕ} {events : List (α × ℕ)}
      (hbefore : c a = some k) (hless : k < n) (hafter : c' a = some n) (hgrow : c.Grow c')
      (hrest : Spends c' events c'') : Spends c ((a, n) :: events) c''

/-- Runs one after the other. -/
theorem Spends.append (hfirst : Spends c events c') (hsecond : Spends c' events' c'') :
    Spends c (events ++ events') c'' := by
  induction hfirst with
  | done c => exact hsecond
  | grow hgrow _ ih => exact Spends.grow hgrow (ih hsecond)
  | spend hbefore hless hafter hgrow _ ih =>
      exact Spends.spend hbefore hless hafter hgrow (ih hsecond)

/-- Every event of a run lies above the counters that the run starts from. -/
theorem Spends.above (hspends : Spends c events c') (hmem : (a, n) ∈ events) (hk : c a = some k) :
    k < n := by
  induction hspends generalizing k with
  | done c => cases hmem
  | grow hgrow _ ih =>
      obtain ⟨k', hk', hle⟩ := hgrow a k hk
      calc
        k ≤ k' := hle
        _ < n := ih hmem hk'
  | spend hbefore hless hafter hgrow _ ih =>
      rcases List.mem_cons.mp hmem with heq | hlater
      · obtain ⟨rfl, rfl⟩ := Prod.mk.inj heq
        obtain rfl := Option.some.inj (hbefore.symm.trans hk)
        exact hless
      · obtain ⟨k', hk', hle⟩ := hgrow a k hk
        calc
          k ≤ k' := hle
          _ < n := ih hlater hk'

/-- No event occurs twice. -/
theorem Spends.nodup (hspends : Spends c events c') : events.Nodup := by
  induction hspends with
  | done c => exact List.nodup_nil
  | grow _ _ ih => exact ih
  | spend _ _ hafter _ hrest ih =>
      refine List.nodup_cons.mpr ⟨fun hmem => ?_, ih⟩
      exact Nat.lt_irrefl _ (hrest.above hmem hafter)

end Counters
