import Mathlib.Algebra.Group.Basic
import Mathlib.Data.List.Infix

/-! Deterministic machines that answer every input. A machine is its step function; a run feeds it
a list of inputs from a start state. The rules here carry a one-step fact to a whole run: from an
invariant and a condition on the steps to a property of every step, and from a potential that
every step raises by what it pays out to the total paid out by the run. -/

namespace Machine

variable {σ ι ω : Type*} (step : σ → ι → ω × σ)

/-- The state a run ends in. -/
def final : σ → List ι → σ
  | s, [] => s
  | s, i :: is => final (step s i).2 is

/-- The answers of a run, one for each input. -/
def answers : σ → List ι → List ω
  | _, [] => []
  | s, i :: is => (step s i).1 :: answers (step s i).2 is

/-- `Q` holds of every step of the run: of the state before it and of its input. -/
def EveryStep (Q : σ → ι → Prop) : σ → List ι → Prop
  | _, [] => True
  | s, i :: is => Q s i ∧ EveryStep Q (step s i).2 is

/-- What a run pays out in all, where `w` reads the payment off an input and its answer. -/
def total {M : Type*} [AddZeroClass M] (w : ι → ω → M) : σ → List ι → M
  | _, [] => 0
  | s, i :: is => w i (step s i).1 + total w (step s i).2 is

@[simp] theorem final_nil (s : σ) : final step s [] = s := rfl
@[simp] theorem final_cons (s : σ) (i : ι) (is : List ι) :
    final step s (i :: is) = final step (step s i).2 is := rfl

theorem final_append (s : σ) (is js : List ι) : final step s (is ++ js) = final step (final step s is) js := by
  induction is generalizing s with
  | nil => rfl
  | cons i is ih => exact ih _

@[simp] theorem everyStep_nil (Q : σ → ι → Prop) (s : σ) : EveryStep step Q s [] := trivial
@[simp] theorem everyStep_cons (Q : σ → ι → Prop) (s : σ) (i : ι) (is : List ι) :
    EveryStep step Q s (i :: is) ↔ Q s i ∧ EveryStep step Q (step s i).2 is := Iff.rfl

@[simp] theorem total_nil {M : Type*} [AddZeroClass M] (w : ι → ω → M) (s : σ) :
    total step w s [] = 0 := rfl
@[simp] theorem total_cons {M : Type*} [AddZeroClass M] (w : ι → ω → M) (s : σ) (i : ι)
    (is : List ι) :
    total step w s (i :: is) = w i (step s i).1 + total step w (step s i).2 is := rfl

variable {step} {Inv : σ → Prop} {C Q : σ → ι → Prop}

/-- The invariant rule: if, under the invariant, a step that meets `C` has property `Q` and keeps
the invariant, then a run whose steps all meet `C` has property `Q` at every step and ends in the
invariant. -/
theorem everyStep_of_invariant
    (hstep : ∀ s i, Inv s → C s i → Q s i ∧ Inv (step s i).2) :
    ∀ {s : σ} {is : List ι}, Inv s → EveryStep step C s is →
      EveryStep step Q s is ∧ Inv (final step s is) := by
  intro s is
  induction is generalizing s with
  | nil => exact fun hinv _ => ⟨trivial, hinv⟩
  | cons i is ih =>
      rintro hinv ⟨hhere, hrest⟩
      obtain ⟨hq, hnext⟩ := hstep s i hinv hhere
      obtain ⟨hqs, hend⟩ := ih hnext hrest
      exact ⟨⟨hq, hqs⟩, hend⟩

/-- Where two properties of steps agree under an invariant that one of them keeps, they agree on runs. -/
theorem everyStep_iff_of_invariant (hsame : ∀ s i, Inv s → (Q s i ↔ C s i))
    (hkeep : ∀ s i, Inv s → C s i → Inv (step s i).2) {s : σ} (hinv : Inv s) (is : List ι) :
    EveryStep step Q s is ↔ EveryStep step C s is := by
  induction is generalizing s with
  | nil => exact Iff.rfl
  | cons i is ih =>
      rw [everyStep_cons, everyStep_cons, hsame s i hinv]
      apply and_congr_right
      intro hhere
      exact ih (hkeep s i hinv hhere)

/-- What every step keeps holds at the end of every run. -/
theorem invariant_final (hstep : ∀ s i, Inv s → Inv (step s i).2) {s : σ} (hinv : Inv s)
    (is : List ι) : Inv (final step s is) := by
  induction is generalizing s with
  | nil => exact hinv
  | cons i is ih => exact ih (hstep s i hinv)

/-- A weaker property of the same steps. -/
theorem EveryStep.mono (h : ∀ s i, C s i → Q s i) {s : σ} {is : List ι}
    (hrun : EveryStep step C s is) : EveryStep step Q s is := by
  induction is generalizing s with
  | nil => trivial
  | cons i is ih => exact ⟨h s i hrun.1, ih hrun.2⟩

/-- Every input holds `Q` in every state: so does every step of every run. -/
theorem everyStep_of_forall (h : ∀ s i, Q s i) (s : σ) (is : List ι) : EveryStep step Q s is := by
  induction is generalizing s with
  | nil => trivial
  | cons i is ih => exact ⟨h s i, ih _⟩

/-- The ledger rule: a potential that each step raises by exactly what it pays has grown, at the
end of the run, by the total paid. -/
theorem potential_final {M : Type*} [AddMonoid M] (w : ι → ω → M) (φ : σ → M)
    (hstep : ∀ s i, Inv s → C s i → φ (step s i).2 = φ s + w i (step s i).1 ∧ Inv (step s i).2) :
    ∀ {s : σ} {is : List ι}, Inv s → EveryStep step C s is →
      φ (final step s is) = φ s + total step w s is := by
  intro s is
  induction is generalizing s with
  | nil => exact fun _ _ => (add_zero _).symm
  | cons i is ih =>
      rintro hinv ⟨hhere, hrest⟩
      obtain ⟨hφ, hnext⟩ := hstep s i hinv hhere
      calc φ (final step (step s i).2 is)
          = φ (step s i).2 + total step w (step s i).2 is := ih hnext hrest
        _ = φ s + w i (step s i).1 + total step w (step s i).2 is := by rw [hφ]
        _ = φ s + (w i (step s i).1 + total step w (step s i).2 is) := add_assoc _ _ _

/-! ### Requests -/

/-- What was requested last, where `request` reads the request off an input that makes one. -/
def lastRequest {β : Type*} (request : ι → Option β) : List ι → Option β
  | [] => none
  | i :: is => (lastRequest request is).or (request i)

@[simp] theorem lastRequest_nil {β : Type*} (request : ι → Option β) : lastRequest request [] = none := rfl
@[simp] theorem lastRequest_cons {β : Type*} (request : ι → Option β) (i : ι) (is : List ι) :
    lastRequest request (i :: is) = (lastRequest request is).or (request i) := rfl

theorem lastRequest_map {β γ : Type*} (f : β → γ) (request : ι → Option β) (is : List ι) :
    lastRequest (fun i => (request i).map f) is = (lastRequest request is).map f := by
  induction is with
  | nil => rfl
  | cons i is ih => simp [ih, Option.map_or]

variable (Inv) in
/-- The register rule: a reading that every step sets to what it is asked for, and leaves where it is not asked, is
at the end of a run what was requested last. -/
theorem reading_final {β : Type*} (reading : σ → β) (request : ι → Option β)
    (hstep : ∀ s i, Inv s → reading (step s i).2 = (request i).getD (reading s) ∧ Inv (step s i).2)
    {s : σ} (hinv : Inv s) (is : List ι) :
    reading (final step s is) = (lastRequest request is).getD (reading s) := by
  induction is generalizing s with
  | nil => rfl
  | cons i is ih =>
      obtain ⟨hreading, hnext⟩ := hstep s i hinv
      calc reading (final step (step s i).2 is)
          = (lastRequest request is).getD (reading (step s i).2) := ih hnext
        _ = (lastRequest request is).getD ((request i).getD (reading s)) := by rw [hreading]
        _ = (lastRequest request (i :: is)).getD (reading s) := by
              cases hlast : lastRequest request is <;> simp [hlast]

variable (Inv) in
/-- The holding rule: where a reading only ever takes a value that is requested while it has none, it holds a value
exactly since a request of it, made while there was none, behind which there always was one. -/
theorem holding_final {β : Type*} (reading : σ → Option β) (request : ι → Option β)
    (hstep : ∀ s i v, Inv s → reading (step s i).2 = some v →
      reading s = some v ∨ reading s = none ∧ request i = some v)
    (hkeep : ∀ s i, Inv s → Inv (step s i).2) {s : σ} (hinv : Inv s) (hfree : reading s = none) (is : List ι) {v : β} :
    reading (final step s is) = some v ↔ ∃ before i since, is = before ++ i :: since ∧ request i = some v ∧
      reading (final step s before) = none ∧
      ∀ rest, rest <+: since → (reading (final step s (before ++ i :: rest))).isSome := by
  have hhere : ∀ is, Inv (final step s is) := fun is => invariant_final hkeep hinv is
  have hlast : ∀ is i, final step s (is ++ [i]) = (step (final step s is) i).2 := fun is i => final_append ..
  constructor
  · intro hholds
    induction is using List.reverseRecOn with
    | nil => rw [final_nil, hfree] at hholds; cases hholds
    | append_singleton is i ih =>
        have hsome := hholds
        rw [hlast] at hholds
        rcases hstep _ i v (hhere is) hholds with hbefore | ⟨hnone, hrequest⟩
        · obtain ⟨before, j, since, rfl, hrequest, hnone, hkept⟩ := ih hbefore
          refine ⟨before, j, since ++ [i], by simp, hrequest, hnone, ?_⟩
          intro rest hrest
          rcases List.prefix_concat_iff.mp hrest with rfl | hrest
          · simpa using Option.isSome_iff_exists.mpr ⟨v, hsome⟩
          · exact hkept rest hrest
        · refine ⟨is, i, [], rfl, hrequest, hnone, ?_⟩
          intro rest hrest
          rw [List.prefix_nil.mp hrest]
          exact Option.isSome_iff_exists.mpr ⟨v, hsome⟩
  · rintro ⟨before, i, since, rfl, hrequest, hnone, hkept⟩
    induction since using List.reverseRecOn with
    | nil =>
        obtain ⟨w, hw⟩ := Option.isSome_iff_exists.mp (hkept [] List.nil_prefix)
        rcases hstep _ i w (hhere before) (by rw [← hlast]; exact hw) with hsome | ⟨-, hw'⟩
        · rw [hnone] at hsome; cases hsome
        · rw [hw, ← hw', hrequest]
    | append_singleton since j ih =>
        have hsome := ih fun rest hrest => hkept rest (hrest.trans (List.prefix_append _ _))
        obtain ⟨w, hw⟩ := Option.isSome_iff_exists.mp (hkept _ List.prefix_rfl)
        have hstep' := hstep _ j w (hhere (before ++ i :: since)) (by rw [← hlast]; simpa using hw)
        rcases hstep' with hbefore | ⟨hnone', -⟩
        · rw [hw, ← hbefore, hsome]
        · rw [hsome] at hnone'; cases hnone'

/-- Two machines whose steps answer alike and keep a relation between their states do so over whole runs. -/
theorem simulation {τ : Type*} {step' : τ → ι → ω × τ} {R : σ → τ → Prop}
    (hstep : ∀ s t i, R s t → (step s i).1 = (step' t i).1 ∧ R (step s i).2 (step' t i).2)
    {s : σ} {t : τ} (hrelated : R s t) (is : List ι) :
    answers step s is = answers step' t is ∧ R (final step s is) (final step' t is) := by
  induction is generalizing s t with
  | nil => exact ⟨rfl, hrelated⟩
  | cons i is ih =>
      obtain ⟨hanswer, hnext⟩ := hstep s t i hrelated
      obtain ⟨hanswers, hend⟩ := ih hnext
      exact ⟨by rw [answers, answers, hanswer, hanswers], hend⟩

end Machine
