import Mathlib.Data.List.Basic
import Mathlib.Tactic.Common

/-! Interleavings of threads whose steps are functions of a shared state. A schedule says which thread goes next. What
every step keeps holds at the end of every schedule; a thread that goes on alone arrives where its rank runs out; and
threads that each arrive alone, and stay there while others go, arrive one after the other. -/

namespace Schedules

variable {σ θ : Type*} (step : σ → θ → σ)

/-- The state at the end of a schedule. -/
def run (s : σ) (schedule : List θ) : σ := schedule.foldl step s

theorem run_append (s : σ) (first second : List θ) :
    run step s (first ++ second) = run step (run step s first) second := List.foldl_append

variable {step} {Inv : σ → Prop}

theorem run_invariant (hstep : ∀ s t, Inv s → Inv (step s t)) {s : σ} (hinv : Inv s) (schedule : List θ) :
    Inv (run step s schedule) := by
  induction schedule generalizing s with
  | nil => exact hinv
  | cons t schedule ih => exact ih (hstep s t hinv)

/-- A thread alone, with a rank that every step lowers until it arrives. -/
theorem arrives_alone (step : σ → θ → σ) (Goal : σ → Prop) (t : θ) (rank : σ → ℕ)
    (hstep : ∀ s, Inv s → ¬Goal s → Inv (step s t) ∧ rank (step s t) < rank s) {s : σ} (hinv : Inv s) :
    ∃ n, Inv (run step s (List.replicate n t)) ∧ Goal (run step s (List.replicate n t)) := by
  induction hrank : rank s using Nat.strongRecOn generalizing s with
  | ind bound ih =>
      by_cases hgoal : Goal s
      · exact ⟨0, hinv, hgoal⟩
      · obtain ⟨hinv', hless⟩ := hstep s hinv hgoal
        obtain ⟨n, hinv'', hgoal'⟩ := ih (rank (step s t)) (hrank ▸ hless) hinv' rfl
        exact ⟨n + 1, hinv'', hgoal'⟩

/-- Threads that arrive alone, where the schedule of one moves no other away. -/
theorem arrive_in_turn {ι : Type*} (Arrived : ι → σ → Prop)
    (halone : ∀ t s, Inv s → ∃ schedule, Inv (run step s schedule) ∧ Arrived t (run step s schedule) ∧
      ∀ u, Arrived u s → Arrived u (run step s schedule)) (ts : List ι) {s : σ} (hinv : Inv s) :
    ∃ schedule, Inv (run step s schedule) ∧ (∀ t ∈ ts, Arrived t (run step s schedule)) ∧
      ∀ u, Arrived u s → Arrived u (run step s schedule) := by
  induction ts generalizing s with
  | nil => exact ⟨[], hinv, fun t hmem => absurd hmem List.not_mem_nil, fun _ harrived => harrived⟩
  | cons t ts ih =>
      obtain ⟨first, hinv₁, hfirst, hkeeps₁⟩ := halone t s hinv
      obtain ⟨second, hinv₂, hsecond, hkeeps₂⟩ := ih hinv₁
      refine ⟨first ++ second, ?_⟩
      rw [run_append]
      refine ⟨hinv₂, ?_, fun u harrived => hkeeps₂ u (hkeeps₁ u harrived)⟩
      exact List.forall_mem_cons.mpr ⟨hkeeps₂ t hfirst, hsecond⟩

end Schedules
