import Mathlib.Logic.Function.Iterate

/-! Chains made by iterating one function from a secret seed. The chain of depth `d` ends at
`f^[d] seed`; position `k` counts back from that end, so position `0` is the end and position `d`
the seed. Revealing position `k` lets anyone walk up to every earlier position, and nothing more. -/

namespace HashChain

variable {α : Type*} (f : α → α)

/-- The value at position `k` of the chain of depth `d` over a seed. -/
def link (seed : α) (d k : ℕ) : α := f^[d - k] seed

@[simp] theorem link_zero (seed : α) (d : ℕ) : link f seed d 0 = f^[d] seed := rfl

@[simp] theorem link_depth (seed : α) (d : ℕ) : link f seed d d = seed := by
  rw [link, Nat.sub_self, Function.iterate_zero_apply]

/-- Walking up `j - k` steps from position `j` reaches position `k`. -/
theorem walk (seed : α) {d j k : ℕ} (hkj : k ≤ j) (hjd : j ≤ d) :
    f^[j - k] (link f seed d j) = link f seed d k := by
  rw [link, link, ← Function.iterate_add_apply]
  congr 1
  omega

/-- A value that walks up to a position of a chain and the position itself end at the same value. -/
theorem walk_trans {x y z : α} {m n : ℕ} (hxy : f^[m] x = y) (hyz : f^[n] y = z) :
    f^[n + m] x = z := by
  rw [Function.iterate_add_apply, hxy, hyz]

end HashChain
