import Mathlib.Data.List.Chain
import Mathlib.Data.List.Nodup
import Mathlib.Data.List.TakeWhile
import Mathlib.Logic.Function.Basic

/-! Walks along pointers. A loop takes turns until one of them ends it; what it returns does not depend on the fuel
that it is given. A chain is what is met from a start to where the pointers end. -/

namespace Loop

variable {σ : Type*} (turn : σ → Bool × σ)

/-- The states from which the loop went on, and the state in which it ended; `none` where the fuel did not suffice. -/
def run : ℕ → σ → Option (List σ × σ)
  | 0, _ => none
  | fuel + 1, s =>
      match turn s with
      | (false, s') => some ([], s')
      | (true, s') => (run fuel s').map fun (turns, last) => (s :: turns, last)

/-- What a loop returns. -/
inductive Returns : σ → List σ → σ → Prop
  | last {s s' : σ} (hturn : turn s = (false, s')) : Returns s [] s'
  | next {s s' last : σ} {turns : List σ} (hturn : turn s = (true, s')) (hrest : Returns s' turns last) :
      Returns s (s :: turns) last

variable {turn} {s s' last last' : σ} {turns turns' : List σ}

theorem exists_run_iff : (∃ fuel, run turn fuel s = some (turns, last)) ↔ Returns turn s turns last := by
  constructor
  · rintro ⟨fuel, hrun⟩
    induction fuel generalizing s turns with
    | zero => cases hrun
    | succ fuel ih =>
        rw [run] at hrun
        split at hrun
        · next hturn =>
            cases hrun
            exact .last hturn
        · next hturn =>
            obtain ⟨⟨rest, last⟩, hrest, heq⟩ := Option.map_eq_some_iff.mp hrun
            cases heq
            exact .next hturn (ih hrest)
  · intro hreturns
    induction hreturns with
    | last hturn => exact ⟨1, by simp only [run, hturn]⟩
    | next hturn _ ih =>
        obtain ⟨fuel, hrest⟩ := ih
        exact ⟨fuel + 1, by simp only [run, hturn, hrest, Option.map_some]⟩

/-- More fuel changes nothing. -/
theorem run_mono {fuel fuel' : ℕ} (hle : fuel ≤ fuel') {out : List σ × σ} (hrun : run turn fuel s = some out) :
    run turn fuel' s = some out := by
  induction fuel generalizing fuel' s out with
  | zero => cases hrun
  | succ fuel ih =>
      obtain ⟨fuel', rfl⟩ : ∃ k, fuel' = k + 1 := ⟨fuel' - 1, by omega⟩
      cases hturn : turn s with
      | mk goOn next =>
          simp only [run, hturn] at hrun ⊢
          cases goOn with
          | false => exact hrun
          | true =>
              obtain ⟨rest, hrest, rfl⟩ := Option.map_eq_some_iff.mp hrun
              simp only [ih (Nat.le_of_succ_le_succ hle) hrest, Option.map_some]

theorem returns_iff_of_end (hturn : turn s = (false, s')) : Returns turn s turns last ↔ turns = [] ∧ last = s' := by
  constructor
  · intro hreturns
    cases hreturns with
    | last hturn' => exact ⟨rfl, (Prod.mk.inj (hturn'.symm.trans hturn)).2⟩
    | next hturn' _ => cases hturn'.symm.trans hturn
  · rintro ⟨rfl, rfl⟩
    exact .last hturn

theorem returns_iff_of_next (hturn : turn s = (true, s')) :
    Returns turn s turns last ↔ ∃ rest, turns = s :: rest ∧ Returns turn s' rest last := by
  constructor
  · intro hreturns
    cases hreturns with
    | last hturn' => cases hturn'.symm.trans hturn
    | next hturn' hrest =>
        obtain rfl := (Prod.mk.inj (hturn'.symm.trans hturn)).2
        exact ⟨_, rfl, hrest⟩
  · rintro ⟨rest, rfl, hrest⟩
    exact .next hturn hrest

theorem Returns.unique (hreturns : Returns turn s turns last) (hreturns' : Returns turn s turns' last') :
    turns = turns' ∧ last = last' := by
  induction hreturns generalizing turns' with
  | last hturn =>
      obtain ⟨rfl, rfl⟩ := (returns_iff_of_end hturn).mp hreturns'
      exact ⟨rfl, rfl⟩
  | next hturn _ ih =>
      obtain ⟨rest, rfl, hrest⟩ := (returns_iff_of_next hturn).mp hreturns'
      obtain ⟨rfl, rfl⟩ := ih hrest
      exact ⟨rfl, rfl⟩

/-- What every turn keeps, the last one included, holds in the end. -/
theorem Returns.invariant (Inv : σ → Prop) (hstep : ∀ s, Inv s → Inv (turn s).2)
    (hreturns : Returns turn s turns last) (hinv : Inv s) : Inv last := by
  induction hreturns with
  | last hturn =>
      have hkept := hstep _ hinv
      rwa [hturn] at hkept
  | next hturn _ ih =>
      have hkept := hstep _ hinv
      rw [hturn] at hkept
      exact ih hkept

/-- A loop that goes on in every state of a kind, and stays in them, does not return. -/
theorem not_returns {Inv : σ → Prop} (hstep : ∀ s, Inv s → (turn s).1 = true ∧ Inv (turn s).2) (hinv : Inv s) :
    ¬ Returns turn s turns last := by
  intro hreturns
  induction hreturns with
  | last hturn => cases (congrArg Prod.fst hturn).symm.trans (hstep _ hinv).1
  | next hturn _ ih =>
      have hkept := (hstep _ hinv).2
      rw [hturn] at hkept
      exact ih hkept

end Loop

/-! ### Chains -/

/-- What is met from a start to where the pointers end. -/
inductive Chain {α : Type*} (next : α → Option α) : Option α → List α → Prop
  | nil : Chain next none []
  | cons {a : α} {l : List α} (hrest : Chain next (next a) l) : Chain next (some a) (a :: l)

namespace Chain

variable {α : Type*} {next next' : α → Option α} {start : Option α} {a b : α} {l l' front behind : List α}

theorem nil_iff : Chain next start [] ↔ start = none :=
  ⟨fun hchain => by cases hchain; rfl, fun hnone => hnone ▸ .nil⟩

theorem cons_iff : Chain next start (a :: l) ↔ start = some a ∧ Chain next (next a) l :=
  ⟨fun hchain => by cases hchain with | cons hrest => exact ⟨rfl, hrest⟩, fun h => h.1 ▸ .cons h.2⟩

theorem unique (hchain : Chain next start l) (hchain' : Chain next start l') : l = l' := by
  induction hchain generalizing l' with
  | nil =>
      cases hchain'
      rfl
  | cons hrest ih =>
      cases hchain' with
      | cons hrest' => rw [ih hrest']

/-- From any element on, the chain is that of the element. -/
theorem suffix (hchain : Chain next start (front ++ b :: behind)) : Chain next (some b) (b :: behind) := by
  induction front generalizing start with
  | nil =>
      obtain ⟨rfl, hrest⟩ := cons_iff.mp hchain
      exact .cons hrest
  | cons a front ih => exact ih (cons_iff.mp hchain).2

theorem nodup (hchain : Chain next start l) : l.Nodup := by
  induction hchain with
  | nil => exact List.nodup_nil
  | @cons a l hrest ih =>
      refine List.nodup_cons.mpr ⟨fun hmem => ?_, ih⟩
      -- otherwise the chain of `a` would be a proper part of itself
      obtain ⟨front, behind, rfl⟩ := List.append_of_mem hmem
      have hlengths := congrArg List.length ((suffix hrest).unique (.cons hrest))
      simp only [List.length_cons, List.length_append] at hlengths
      omega

/-- Only the pointers of its elements decide about a chain. -/
theorem congr (hsame : ∀ a ∈ l, next' a = next a) (hchain : Chain next start l) : Chain next' start l := by
  induction hchain with
  | nil => exact .nil
  | @cons a l hrest ih =>
      refine .cons ?_
      rw [hsame a List.mem_cons_self]
      exact ih fun b hb => hsame b (List.mem_cons_of_mem a hb)

/-- A pointer that is cut ends the chain behind its element. -/
theorem cut (hcut : next' b = none) (hsame : ∀ a ∈ front, next' a = next a)
    (hchain : Chain next start (front ++ b :: behind)) : Chain next' start (front ++ [b]) := by
  induction front generalizing start with
  | nil =>
      obtain ⟨rfl, -⟩ := cons_iff.mp hchain
      exact .cons (hcut ▸ .nil)
  | cons a front ih =>
      obtain ⟨rfl, hrest⟩ := cons_iff.mp hchain
      refine .cons ?_
      rw [hsame a List.mem_cons_self]
      exact ih (fun c hc => hsame c (List.mem_cons_of_mem a hc)) hrest

theorem next_eq_none_iff (hchain : Chain next start (front ++ b :: behind)) : next b = none ↔ behind = [] := by
  have hbehind := (cons_iff.mp (suffix hchain)).2
  constructor
  · intro hnone
    rw [hnone] at hbehind
    cases hbehind
    rfl
  · rintro rfl
    exact nil_iff.mp hbehind

/-- Neighbours in a chain are linked. -/
theorem isChain (hchain : Chain next start l) : l.IsChain fun a b => next a = some b := by
  induction hchain with
  | nil => exact .nil
  | @cons a l hrest ih =>
      cases l with
      | nil => exact .singleton a
      | cons b l => exact .cons_cons (cons_iff.mp hrest).1 ih

theorem isChain_and {R S : α → α → Prop} (hR : l.IsChain R) (hS : l.IsChain S) :
    l.IsChain fun a b => R a b ∧ S a b := by
  induction hR with
  | nil => exact .nil
  | singleton a => exact .singleton a
  | cons_cons hhere _ ih =>
      obtain ⟨hhere', hrest⟩ := List.isChain_cons_cons.mp hS
      exact .cons_cons ⟨hhere, hhere'⟩ (ih hrest)

end Chain
