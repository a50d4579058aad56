import Mathlib.Algebra.BigOperators.Group.Finset.Basic
import Mathlib.Algebra.BigOperators.Ring.Finset
import Mathlib.Algebra.Order.Field.Basic
import Mathlib.Data.List.GetD
import Mathlib.Tactic.Linarith
import Mathlib.Tactic.LinearCombination
import Mathlib.Tactic.Positivity
import Mathlib.Tactic.Ring

/-! Exponential moving averages. A value counts with the factor `α` when it is taken in, and loses the factor `1 - α`
with every value after it: the value taken in last weighs most. -/

namespace MovingAverage

section Weights

variable {𝕜 : Type*} [Field 𝕜]

/-- The average after one more value. -/
def step (α average value : 𝕜) : 𝕜 := value * α + average * (1 - α)

/-- The average over values that are taken in from the first on. -/
def run (α start : 𝕜) (values : List 𝕜) : 𝕜 := values.foldl (step α) start

/-- The weight of value `i` of `n`. -/
def weight (α : 𝕜) (n i : ℕ) : 𝕜 := α * (1 - α) ^ (n - 1 - i)

/-- The sum of values with their weights. -/
def weighted (weights : ℕ → 𝕜) (values : List 𝕜) : 𝕜 :=
  ∑ i ∈ Finset.range values.length, weights i * values.getD i 0

theorem weighted_replicate (weights : ℕ → 𝕜) (n : ℕ) (value : 𝕜) :
    weighted weights (List.replicate n value) = (∑ i ∈ Finset.range n, weights i) * value := by
  rw [weighted, List.length_replicate, Finset.sum_mul]
  apply Finset.sum_congr rfl
  intro i hi
  rw [List.getD_replicate _ (Finset.mem_range.mp hi)]

theorem weighted_singleton (weights : ℕ → 𝕜) (value : 𝕜) : weighted weights [value] = weights 0 * value := by
  simp [weighted]

variable (α start : 𝕜)

@[simp] theorem run_nil : run α start [] = start := rfl

@[simp] theorem run_cons (value : 𝕜) (values : List 𝕜) :
    run α start (value :: values) = run α (step α start value) values := rfl

@[simp] theorem run_concat (values : List 𝕜) (value : 𝕜) :
    run α start (values ++ [value]) = step α (run α start values) value := by
  simp [run, List.foldl_append]

/-- **What an average is the mean of**: the start, and each value with its weight. -/
theorem run_eq_sum (values : List 𝕜) :
    run α start values = start * (1 - α) ^ values.length + weighted (weight α values.length) values := by
  unfold weighted
  induction values using List.reverseRecOn with
  | nil => simp
  | append_singleton values value ih =>
      have hweight : ∀ i ∈ Finset.range values.length,
          weight α (values.length + 1) i * (values ++ [value]).getD i 0 =
            (1 - α) * (weight α values.length i * values.getD i 0) := by
        intro i hi
        have hlt := Finset.mem_range.mp hi
        have hpow : values.length + 1 - 1 - i = (values.length - 1 - i) + 1 := by omega
        rw [List.getD_append _ _ _ _ hlt, weight, weight, hpow, pow_succ]
        ring
      have hlast : weight α (values.length + 1) values.length * (values ++ [value]).getD values.length 0 =
          α * value := by
        simp [weight]
      rw [run_concat, step, ih, List.length_append, List.length_singleton, Finset.sum_range_succ, hlast,
        Finset.sum_congr rfl hweight, ← Finset.mul_sum]
      ring

/-- The weights sum to one only together with what is left of the start. -/
theorem sum_weight (n : ℕ) : ∑ i ∈ Finset.range n, weight α n i = 1 - (1 - α) ^ n := by
  have hones := run_eq_sum α 0 (List.replicate n 1)
  have hrun : ∀ n, run α 0 (List.replicate n 1) = 1 - (1 - α) ^ n := by
    intro n
    induction n with
    | zero => simp
    | succ n ih =>
        rw [List.replicate_succ', run_concat, ih, step]
        ring
  rw [hrun, List.length_replicate, zero_mul, zero_add, weighted_replicate, mul_one] at hones
  exact hones.symm

/-- The average over a value repeated. -/
theorem run_replicate (n : ℕ) (value : 𝕜) :
    run α start (List.replicate n value) = value + (start - value) * (1 - α) ^ n := by
  induction n with
  | zero => simp
  | succ n ih =>
      rw [List.replicate_succ', run_concat, ih, step]
      ring

end Weights

section Order

variable {𝕜 : Type*} [Field 𝕜] [LinearOrder 𝕜] [IsStrictOrderedRing 𝕜] {α start : 𝕜}

theorem step_pos (hpos : 0 < α) (hlt : α < 1) {average value : 𝕜} (haverage : 0 < average) (hvalue : 0 ≤ value) :
    0 < step α average value := by
  have hrest : 0 < average * (1 - α) := mul_pos haverage (by linarith)
  have htaken : 0 ≤ value * α := mul_nonneg hvalue hpos.le
  unfold step
  linarith

theorem step_pos_of_value (hpos : 0 < α) (hlt : α < 1) {average value : 𝕜} (haverage : 0 ≤ average)
    (hvalue : 0 < value) : 0 < step α average value := by
  have hrest : 0 ≤ average * (1 - α) := mul_nonneg haverage (by linarith)
  have htaken : 0 < value * α := mul_pos hvalue hpos
  unfold step
  linarith

theorem step_nonneg (hpos : 0 < α) (hlt : α < 1) {average value : 𝕜} (haverage : 0 ≤ average) (hvalue : 0 ≤ value) :
    0 ≤ step α average value := by
  have hrest : 0 ≤ average * (1 - α) := mul_nonneg haverage (by linarith)
  have htaken : 0 ≤ value * α := mul_nonneg hvalue hpos.le
  unfold step
  linarith

/-- An average of values that are not negative is zero exactly where all of them are. -/
theorem step_eq_zero (hpos : 0 < α) (hlt : α < 1) {average value : 𝕜} (haverage : 0 ≤ average) (hvalue : 0 ≤ value) :
    step α average value = 0 ↔ average = 0 ∧ value = 0 := by
  have hbase : 0 < 1 - α := by linarith
  rw [step, add_eq_zero_iff_of_nonneg (mul_nonneg hvalue hpos.le) (mul_nonneg haverage hbase.le), mul_eq_zero,
    mul_eq_zero]
  simp [hpos.ne', hbase.ne', and_comm]

theorem run_nonneg (hpos : 0 < α) (hlt : α < 1) (hstart : 0 ≤ start) {values : List 𝕜}
    (hvalues : ∀ value ∈ values, 0 ≤ value) : 0 ≤ run α start values := by
  induction values generalizing start with
  | nil => exact hstart
  | cons value values ih =>
      apply ih
      · exact step_nonneg hpos hlt hstart (hvalues value List.mem_cons_self)
      · exact fun v hv => hvalues v (List.mem_cons_of_mem _ hv)

theorem run_eq_zero (hpos : 0 < α) (hlt : α < 1) (hstart : 0 ≤ start) {values : List 𝕜}
    (hvalues : ∀ value ∈ values, 0 ≤ value) :
    run α start values = 0 ↔ start = 0 ∧ ∀ value ∈ values, value = 0 := by
  induction values generalizing start with
  | nil => simp
  | cons value values ih =>
      have hvalue := hvalues value List.mem_cons_self
      rw [run_cons, ih (step_nonneg hpos hlt hstart hvalue) fun v hv => hvalues v (List.mem_cons_of_mem _ hv),
        step_eq_zero hpos hlt hstart hvalue, List.forall_mem_cons, and_assoc]

end Order

end MovingAverage
