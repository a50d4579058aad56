import Gridnet.Machine
import Mathlib.Algebra.Group.Nat.Defs

/-! Limits on how often something is admitted, kept with a counter that starts anew once its window is over. In any
stretch of time that is as long as the window at most twice the limit is admitted, wherever the stretch lies. -/

namespace FixedWindow

/-- What a step does to a window, which is its start and its count, where `a` tells whether it admits something. It
counts one more at most. -/
inductive Counted (length limit now : ℕ) : Option (ℕ × ℕ) → Option (ℕ × ℕ) → Bool → Prop
  | idle (window : Option (ℕ × ℕ)) : Counted length limit now window window false
  | kept {start count count' : ℕ} {a : Bool} (hcount : count + a.toNat ≤ count') (hlimit : a = true → count' ≤ limit)
      (hone : count' ≤ count + 1) : Counted length limit now (some (start, count)) (some (start, count')) a
  | renewed {before : Option (ℕ × ℕ)} {count' : ℕ} {a : Bool} (hover : ∀ window ∈ before, window.1 + length < now)
      (hcount : a.toNat ≤ count') (hlimit : a = true → count' ≤ limit) (hone : count' ≤ 1) :
      Counted length limit now before (some (now, count')) a

/-- What a window has counted. -/
def count (window : Option (ℕ × ℕ)) : ℕ := window.elim 0 Prod.snd

theorem Counted.count_le {length limit now : ℕ} {before after : Option (ℕ × ℕ)} {a : Bool}
    (hcounted : Counted length limit now before after a) : count after ≤ count before + 1 := by
  cases hcounted with
  | idle => exact Nat.le_succ _
  | kept hcount hlimit hone => exact hone
  | renewed hover hcount hlimit hone => exact hone.trans (Nat.le_add_left 1 _)

theorem Counted.start_le {length limit now bound : ℕ} {before after : Option (ℕ × ℕ)} {a : Bool}
    (hcounted : Counted length limit now before after a) (hbefore : ∀ window ∈ before, window.1 ≤ bound)
    (hnow : now ≤ bound) : ∀ window ∈ after, window.1 ≤ bound := by
  intro window hwindow
  cases hcounted with
  | idle => exact hbefore window hwindow
  | kept =>
      have hstart := hbefore _ rfl
      rw [← Option.some.inj hwindow]
      exact hstart
  | renewed =>
      rw [← Option.some.inj hwindow]
      exact hnow

section Runs

variable {σ ι ω : Type*} {step : σ → ι → ω × σ} {time : ι → ℕ} {admitted : ι → ω → Bool}
  {window : σ → Option (ℕ × ℕ)} {length limit : ℕ} {s : σ} {is : List ι} {start count : ℕ}

variable (step time admitted window length limit) in
/-- Every step counts what it admits. -/
def Counts : σ → List ι → Prop :=
  Machine.EveryStep step fun s i =>
    Counted length limit (time i) (window s) (window (step s i).2) (admitted i (step s i).1)

variable (time admitted length) in
/-- One for what is admitted between `t` and the end of the window that starts at `t`. -/
def within (t : ℕ) (i : ι) (o : ω) : ℕ := if t ≤ time i ∧ time i ≤ t + length ∧ admitted i o = true then 1 else 0

theorem within_le (t : ℕ) (i : ι) (o : ω) : within time admitted length t i o ≤ (admitted i o).toNat := by
  rw [within]
  split_ifs with h
  · rw [h.2.2]
    exact Nat.le_refl 1
  · exact Nat.zero_le _

theorem total_late {t : ℕ} (hlate : ∀ i ∈ is, t + length < time i) :
    Machine.total step (within time admitted length t) s is = 0 := by
  induction is generalizing s with
  | nil => rfl
  | cons i is ih =>
      obtain ⟨hi, his⟩ := List.forall_mem_cons.mp hlate
      rw [Machine.total_cons, ih his, within, if_neg (by omega)]

/-- Once a window has started in the stretch, it lasts until the end of it. -/
theorem total_of_started {t : ℕ} (hclock : is.Pairwise fun i j => time i ≤ time j)
    (hcounts : Counts step time admitted window length limit s is) (hwindow : window s = some (start, count))
    (hstart : t ≤ start) : Machine.total step (within time admitted length t) s is ≤ limit - count := by
  induction is generalizing s count with
  | nil => exact Nat.zero_le _
  | cons i is ih =>
      obtain ⟨hlater, hclock⟩ := List.pairwise_cons.mp hclock
      obtain ⟨hhere, hrest⟩ := hcounts
      have hpaid := @within_le _ _ time admitted length t i (step s i).1
      rw [Machine.total_cons]
      rw [hwindow] at hhere
      generalize hafter : window (step s i).2 = after at hhere
      generalize admitted i (step s i).1 = a at hhere hpaid
      cases hhere with
      | idle =>
          have hle := ih hclock hrest hafter
          rw [Bool.toNat_false] at hpaid
          omega
      | kept hcount hlimit =>
          have hle := ih hclock hrest hafter
          cases a with
          | false =>
              rw [Bool.toNat_false] at hpaid hcount
              omega
          | true =>
              have hfits := hlimit rfl
              rw [Bool.toNat_true] at hpaid hcount
              omega
      | renewed hover =>
          have hnow : start + length < time i := hover _ rfl
          have hzero : Machine.total step (within time admitted length t) (step s i).2 is = 0 :=
            total_late fun j hj => by
              have hj := hlater j hj
              omega
          rw [hzero, within, if_neg (by omega)]
          exact Nat.zero_le _

/-- What is left of the limit of a window. -/
def room (limit : ℕ) (window : Option (ℕ × ℕ)) : ℕ := limit - FixedWindow.count window

theorem total_of_late {t : ℕ} (hclock : is.Pairwise fun i j => time i ≤ time j)
    (hcounts : Counts step time admitted window length limit s is) (hlate : ∀ i ∈ is, t ≤ time i) :
    Machine.total step (within time admitted length t) s is ≤ limit + room limit (window s) := by
  induction is generalizing s with
  | nil => exact Nat.zero_le _
  | cons i is ih =>
      obtain ⟨-, hclock'⟩ := List.pairwise_cons.mp hclock
      obtain ⟨hi, his⟩ := List.forall_mem_cons.mp hlate
      obtain ⟨hhere, hrest⟩ := hcounts
      have hpaid := @within_le _ _ time admitted length t i (step s i).1
      have hle := ih hclock' hrest his
      rw [Machine.total_cons]
      generalize hbefore : window s = before at hhere ⊢
      generalize hafter : window (step s i).2 = after at hhere hle
      generalize admitted i (step s i).1 = a at hhere hpaid
      cases hhere with
      | idle =>
          rw [Bool.toNat_false] at hpaid
          omega
      | kept hcount hlimit =>
          rw [room, FixedWindow.count, Option.elim_some] at hle ⊢
          cases a with
          | false =>
              rw [Bool.toNat_false] at hpaid hcount
              omega
          | true =>
              have hfits := hlimit rfl
              rw [Bool.toNat_true] at hpaid hcount
              omega
      | renewed hover hcount hlimit =>
          have hstarted := total_of_started hclock' hrest hafter hi
          cases a with
          | false =>
              rw [Bool.toNat_false] at hpaid
              omega
          | true =>
              have hfits := hlimit rfl
              rw [Bool.toNat_true] at hpaid hcount
              omega

/-- At most twice the limit is admitted in any stretch as long as the window. -/
theorem total_le (hclock : is.Pairwise fun i j => time i ≤ time j)
    (hcounts : Counts step time admitted window length limit s is) (t : ℕ) :
    Machine.total step (within time admitted length t) s is ≤ 2 * limit := by
  induction is generalizing s with
  | nil => exact Nat.zero_le _
  | cons i is ih =>
      rcases Nat.lt_or_ge (time i) t with hearly | hlate
      · rw [Machine.total_cons, within, if_neg (by omega), Nat.zero_add]
        exact ih (List.pairwise_cons.mp hclock).2 hcounts.2
      · have hle := total_of_late hclock hcounts (t := t) (List.forall_mem_cons.mpr
          ⟨hlate, fun j hj => hlate.trans ((List.pairwise_cons.mp hclock).1 j hj)⟩)
        have hroom : room limit (window s) ≤ limit := Nat.sub_le _ _
        omega

end Runs

end FixedWindow
