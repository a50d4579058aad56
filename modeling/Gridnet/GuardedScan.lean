import Mathlib.Data.List.Basic
import Mathlib.Tactic.Tauto

/-! Scans that check each element of a list before they take it in: the state after a scan does not
depend on the checks, so that a scan succeeds exactly when every check passes at the state reached
there, and two scans over one state compare check by check. -/

namespace Gridnet

section Outcomes

variable {ε α β : Type}

/-- A sequence of two calls succeeds when both do. -/
theorem ok_of_bind {x : Except ε α} {f : α → Except ε β} {b : β} (hok : x >>= f = .ok b) :
    ∃ a, x = .ok a ∧ f a = .ok b := by
  cases x with
  | error e => cases hok
  | ok a => exact ⟨a, rfl, hok⟩

/-- Calls along a list succeed when each does. -/
theorem mapM_ok_iff {f : α → Except ε β} {check : α → Prop} {g : α → β}
    (hf : ∀ a b, f a = .ok b ↔ check a ∧ b = g a) (l : List α) (bs : List β) :
    l.mapM f = .ok bs ↔ (∀ a ∈ l, check a) ∧ bs = l.map g := by
  induction l generalizing bs with
  | nil =>
      rw [List.mapM_nil]
      show Except.ok [] = Except.ok bs ↔ _
      rw [Except.ok.injEq]
      simp [eq_comm]
  | cons a l ih =>
      rw [List.mapM_cons, List.forall_mem_cons, List.map_cons]
      constructor
      · intro hrun
        obtain ⟨b, hb, hrest⟩ := ok_of_bind hrun
        obtain ⟨bs', hbs', hcons⟩ := ok_of_bind hrest
        obtain ⟨hcheck, rfl⟩ := (hf a b).mp hb
        obtain ⟨hall, rfl⟩ := (ih bs').mp hbs'
        cases hcons
        exact ⟨⟨hcheck, hall⟩, rfl⟩
      · rintro ⟨⟨hcheck, hall⟩, rfl⟩
        rw [(hf a _).mpr ⟨hcheck, rfl⟩]
        have hrest := (ih (l.map g)).mpr ⟨hall, rfl⟩
        show (l.mapM f >>= fun bs' => pure (g a :: bs')) = _
        rw [hrest]
        rfl

/-- Calls along a list fail where one of them does. -/
theorem exists_mem_of_mapM_error {f : α → Except ε β} {l : List α} {e : ε}
    (hrun : l.mapM f = .error e) : ∃ a ∈ l, f a = .error e := by
  induction l with
  | nil => cases hrun
  | cons a l ih =>
      rw [List.mapM_cons] at hrun
      cases ha : f a with
      | error e' =>
          rw [ha] at hrun
          cases hrun
          exact ⟨a, List.mem_cons_self, ha⟩
      | ok b =>
          rw [ha] at hrun
          cases hl : l.mapM f with
          | error e' =>
              rw [hl] at hrun
              cases hrun
              obtain ⟨c, hc, hfail⟩ := ih hl
              exact ⟨c, List.mem_cons_of_mem a hc, hfail⟩
          | ok bs =>
              rw [hl] at hrun
              cases hrun

/-- Every result is that of one of the calls. -/
theorem exists_of_mem_mapM {f : α → Except ε β} {l : List α} {bs : List β} {b : β}
    (hrun : l.mapM f = .ok bs) (hb : b ∈ bs) : ∃ a, f a = .ok b := by
  induction l generalizing bs with
  | nil =>
      cases hrun
      cases hb
  | cons a l ih =>
      rw [List.mapM_cons] at hrun
      obtain ⟨b', hb', hrest⟩ := ok_of_bind hrun
      obtain ⟨bs', hbs', hcons⟩ := ok_of_bind hrest
      cases hcons
      rcases List.mem_cons.mp hb with rfl | hmem
      · exact ⟨a, hb'⟩
      · exact ih hbs' hmem

end Outcomes

namespace Scan

variable {ε σ τ α : Type}

/-- Every check passes, each at the state that the elements before it lead to. -/
def Passes (check : σ → α → Prop) (next : σ → α → σ) : σ → List α → Prop
  | _, [] => True
  | s, a :: l => check s a ∧ Passes check next (next s a) l

variable {check check' : σ → α → Prop} {next : σ → α → σ}

@[simp] theorem passes_nil (s : σ) : Passes check next s [] := trivial

@[simp] theorem passes_cons (s : σ) (a : α) (l : List α) :
    Passes check next s (a :: l) ↔ check s a ∧ Passes check next (next s a) l := Iff.rfl

theorem passes_append (s : σ) (l l' : List α) :
    Passes check next s (l ++ l') ↔ Passes check next s l ∧ Passes check next (l.foldl next s) l' := by
  induction l generalizing s with
  | nil => simp
  | cons a l ih =>
      rw [List.cons_append, passes_cons, passes_cons, ih, List.foldl_cons]
      tauto

theorem passes_and (s : σ) (l : List α) :
    Passes (fun s a => check s a ∧ check' s a) next s l ↔
      Passes check next s l ∧ Passes check' next s l := by
  induction l generalizing s with
  | nil => simp
  | cons a l ih =>
      rw [passes_cons, passes_cons, passes_cons, ih]
      tauto

theorem passes_congr (hcheck : ∀ s a, check s a ↔ check' s a) (s : σ) (l : List α) :
    Passes check next s l ↔ Passes check' next s l := by
  induction l generalizing s with
  | nil => simp
  | cons a l ih => rw [passes_cons, passes_cons, hcheck, ih]

/-- A scan stops at the first check that fails; otherwise it ends at the state of the whole list. -/
theorem foldlM_ok_iff {step : σ → α → Except ε σ}
    (hstep : ∀ s a s', step s a = .ok s' ↔ check s a ∧ s' = next s a) (s s' : σ) (l : List α) :
    l.foldlM step s = .ok s' ↔ Passes check next s l ∧ s' = l.foldl next s := by
  induction l generalizing s with
  | nil =>
      show Except.ok s = Except.ok s' ↔ _
      rw [Except.ok.injEq, List.foldl_nil]
      exact ⟨fun hs => ⟨trivial, hs.symm⟩, fun hs => hs.2.symm⟩
  | cons a l ih =>
      rw [List.foldlM_cons, List.foldl_cons, passes_cons]
      constructor
      · intro hrun
        obtain ⟨t, ht, hrest⟩ := ok_of_bind hrun
        obtain ⟨hcheck, rfl⟩ := (hstep s a t).mp ht
        obtain ⟨hpasses, hs'⟩ := (ih _).mp hrest
        exact ⟨⟨hcheck, hpasses⟩, hs'⟩
      · rintro ⟨⟨hcheck, hpasses⟩, hs'⟩
        rw [(hstep s a _).mpr ⟨hcheck, rfl⟩]
        exact (ih _).mpr ⟨hpasses, hs'⟩

/-- A scan fails at the first element whose check does. -/
theorem foldlM_error_iff {step : σ → α → Except ε σ}
    (hstep : ∀ s a s', step s a = .ok s' ↔ check s a ∧ s' = next s a) (s : σ) (l : List α) (e : ε) :
    l.foldlM step s = .error e ↔
      ∃ (k : ℕ) (hk : k < l.length), Passes check next s (l.take k) ∧
        step ((l.take k).foldl next s) (l[k]) = .error e := by
  induction l generalizing s with
  | nil =>
      constructor
      · intro hrun
        cases hrun
      · rintro ⟨k, hk, -⟩
        cases hk
  | cons a l ih =>
      rw [List.foldlM_cons]
      cases hfirst : step s a with
      | error e' =>
          constructor
          · intro hrun
            cases hrun
            exact ⟨0, Nat.succ_pos _, trivial, hfirst⟩
          · rintro ⟨k, hk, hpasses, hfail⟩
            cases k with
            | zero => exact hfirst.symm.trans hfail
            | succ k =>
                have hok := (hstep s a _).mpr ⟨hpasses.1, rfl⟩
                rw [hfirst] at hok
                cases hok
      | ok t =>
          obtain ⟨hcheck, rfl⟩ := (hstep s a t).mp hfirst
          show l.foldlM step (next s a) = .error e ↔ _
          rw [ih]
          constructor
          · rintro ⟨k, hk, hpasses, hfail⟩
            exact ⟨k + 1, Nat.succ_lt_succ hk, ⟨hcheck, hpasses⟩, hfail⟩
          · rintro ⟨k, hk, hpasses, hfail⟩
            cases k with
            | zero =>
                have hcontra : step s a = .error e := hfail
                rw [hfirst] at hcontra
                cases hcontra
            | succ k => exact ⟨k, Nat.lt_of_succ_lt_succ hk, hpasses.2, hfail⟩

/-- A scan that fails does so in one of its steps. -/
theorem exists_of_foldlM_error {step : σ → α → Except ε σ} {s : σ} {l : List α} {e : ε}
    (hrun : l.foldlM step s = .error e) : ∃ t a, step t a = .error e := by
  induction l generalizing s with
  | nil => cases hrun
  | cons a l ih =>
      rw [List.foldlM_cons] at hrun
      cases hstep : step s a with
      | error e' =>
          rw [hstep] at hrun
          cases hrun
          exact ⟨s, a, hstep⟩
      | ok t =>
          rw [hstep] at hrun
          exact ih hrun

/-- A check passes along the whole list when it passes at every place. -/
theorem passes_iff_getElem (s : σ) (l : List α) :
    Passes check next s l ↔
      ∀ (k : ℕ) (hk : k < l.length), check ((l.take k).foldl next s) (l[k]) := by
  induction l generalizing s with
  | nil => simp
  | cons a l ih =>
      rw [passes_cons, ih]
      constructor
      · rintro ⟨hhead, htail⟩ k hk
        cases k with
        | zero => exact hhead
        | succ k => exact htail k (Nat.lt_of_succ_lt_succ hk)
      · intro hall
        refine ⟨hall 0 (Nat.succ_pos _), ?_⟩
        intro k hk
        exact hall (k + 1) (Nat.succ_lt_succ hk)

/-- A relation between the states of two scans that every step keeps is kept by the scans. -/
theorem foldl_rel (rel : σ → τ → Prop) {next' : τ → α → τ} {s : σ} {t : τ} (l : List α)
    (hstep : ∀ a ∈ l, ∀ s t, rel s t → rel (next s a) (next' t a)) (hrel : rel s t) :
    rel (l.foldl next s) (l.foldl next' t) := by
  induction l generalizing s t with
  | nil => exact hrel
  | cons a l ih =>
      apply ih
      · intro b hb
        exact hstep b (List.mem_cons_of_mem a hb)
      · exact hstep a List.mem_cons_self s t hrel

/-- Two scans whose checks agree at related states pass together. -/
theorem passes_rel (rel : σ → τ → Prop) {next' : τ → α → τ} {check' : τ → α → Prop} {s : σ} {t : τ}
    (l : List α) (hstep : ∀ a ∈ l, ∀ s t, rel s t → rel (next s a) (next' t a))
    (hcheck : ∀ a ∈ l, ∀ s t, rel s t → (check s a ↔ check' t a)) (hrel : rel s t) :
    Passes check next s l ↔ Passes check' next' t l := by
  induction l generalizing s t with
  | nil => simp
  | cons a l ih =>
      have htail : Passes check next (next s a) l ↔ Passes check' next' (next' t a) l := by
        apply ih
        · intro b hb
          exact hstep b (List.mem_cons_of_mem a hb)
        · intro b hb
          exact hcheck b (List.mem_cons_of_mem a hb)
        · exact hstep a List.mem_cons_self s t hrel
      rw [passes_cons, passes_cons, hcheck a List.mem_cons_self s t hrel, htail]

/-- Two steps that agree on the elements of a list scan it alike. -/
theorem foldlM_congr {step step' : σ → α → Except ε σ} (l : List α)
    (hsame : ∀ a ∈ l, ∀ s, step s a = step' s a) (s : σ) : l.foldlM step s = l.foldlM step' s := by
  induction l generalizing s with
  | nil => rfl
  | cons a l ih =>
      rw [List.foldlM_cons, List.foldlM_cons, hsame a List.mem_cons_self]
      congr 1
      funext t
      exact ih (fun b hb => hsame b (List.mem_cons_of_mem a hb)) t

end Scan

end Gridnet
