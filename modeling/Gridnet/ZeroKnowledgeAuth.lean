import Gridnet.Behaviours
import Mathlib.Data.Set.Insert

/-! The specification of authentication by zero knowledge of a shared key: a candidate's nonce, the validator's
nonce, a tag over both, and its verification before the time runs out. -/

namespace Gridnet.ZeroKnowledgeAuth

open Behaviours

variable {Peer V : Type*}

/-- The constants beside the peers, and the tuples of values. -/
structure Constants (Peer V : Type*) where
  HonestPeers : Set Peer
  K : V
  T2 : ℤ
  Nonces256 : Set V
  Ctx : V
  NULL : V
  pair : V → V → V
  triple : V → V → V → V
  nonces_nonempty : Nonces256.Nonempty

structure State (Peer V : Type*) where
  Authenticated : Peer → Peer → Bool
  Secrets : Peer → V
  NonceA : Peer → Peer → V
  NonceB : Peer → Peer → V
  Tag : Peer → Peer → V
  T2Start : Peer → Peer → ℤ
  Now : ℤ

variable (C : Constants Peer V)

def Constants.MAC (k m : V) : V := C.pair k m

/-- What the tag of a session is over. -/
def State.m (s : State Peer V) (p q : Peer) : V := C.triple C.Ctx (s.NonceA p q) (s.NonceB p q)

section Actions

open Classical in
noncomputable def Init : State Peer V where
  Authenticated _ _ := false
  Secrets p := if p ∈ C.HonestPeers then C.K else C.K
  NonceA _ _ := C.NULL
  NonceB _ _ := C.NULL
  Tag _ _ := C.NULL
  T2Start _ _ := 0
  Now := 0

variable [DecidableEq Peer] (p q : Peer) (s s' : State Peer V)

/-- The candidate chooses its nonce. -/
def Phase1 : Prop :=
  s.NonceB p q = C.NULL ∧ ∃ n ∈ C.Nonces256, s' = { s with NonceB := except₂ s.NonceB p q n }

/-- The validator chooses another, and the time starts. -/
def Phase2 : Prop :=
  s.NonceB p q ≠ C.NULL ∧ s.NonceA p q = C.NULL ∧ ∃ n ∈ C.Nonces256, n ≠ s.NonceB p q ∧
    s' = { s with NonceA := except₂ s.NonceA p q n, T2Start := except₂ s.T2Start p q s.Now }

def Phase3 : Prop :=
  s.NonceA p q ≠ C.NULL ∧ s.NonceB p q ≠ C.NULL ∧ s.Tag p q = C.NULL ∧
    s' = { s with Tag := except₂ s.Tag p q (C.MAC (s.Secrets q) (s.m C p q)) }

def Verify : Prop :=
  s.Tag p q ≠ C.NULL ∧ s.Now - s.T2Start p q ≤ C.T2 ∧
    s.Tag p q = C.MAC (s.Secrets p) (s.m C p q) ∧
    s' = { s with Authenticated := except₂ s.Authenticated p q true }

omit [DecidableEq Peer] in
/-- Time goes on, and what is out of time is not authenticated any more. -/
def Advance : Prop :=
  s' = { s with
    Now := s.Now + 1
    Authenticated := fun p q =>
      if s.Authenticated p q = true ∧ s.Now + 1 - s.T2Start p q > C.T2 then false
      else s.Authenticated p q }

def Next : Prop :=
  (∃ p q, Phase1 C p q s s') ∨ (∃ p q, Phase2 C p q s s') ∨ (∃ p q, Phase3 C p q s s') ∨
    (∃ p q, Verify C p q s s') ∨ Advance C s s'

def Spec : Specification (State Peer V) where
  Init s := s = Init C
  Next := Next C

end Actions

/-! ### The invariants of the theorem -/

section Invariants

variable (s : State Peer V)

structure TypeOK : Prop where
  NonceA : ∀ p q, s.NonceA p q ∈ C.Nonces256 ∪ {C.NULL}
  NonceB : ∀ p q, s.NonceB p q ∈ C.Nonces256 ∪ {C.NULL}
  Tag : ∀ p q, s.Tag p q = C.NULL ∨ s.Tag p q ≠ C.NULL
  T2Start : ∀ p q, 0 ≤ s.T2Start p q
  Now : 0 ≤ s.Now

def FreshNonces : Prop :=
  ∀ p q, (s.NonceA p q ≠ C.NULL → s.NonceA p q ∈ C.Nonces256) ∧
    (s.NonceB p q ≠ C.NULL → s.NonceB p q ∈ C.Nonces256) ∧
    (s.NonceA p q ≠ C.NULL ∧ s.NonceB p q ≠ C.NULL → s.NonceA p q ≠ s.NonceB p q)

/-- Who is authenticated sent a tag that both ends compute from the nonces, and did so in time. -/
def SafetyInvariant : Prop :=
  ∀ p q, s.Authenticated p q = true →
    s.Tag p q ≠ C.NULL ∧
      (s.Tag p q = C.MAC (s.Secrets p) (s.m C p q) ∧ s.Tag p q = C.MAC (s.Secrets q) (s.m C p q)) ∧
      s.Now - s.T2Start p q ≤ C.T2

end Invariants

/-! ### What a session keeps -/

/-- What the parties of one session know. -/
@[ext]
structure Session (V : Type*) where
  authenticated : Bool
  nonceA : V
  nonceB : V
  tag : V
  start : ℤ

def State.session (s : State Peer V) (p q : Peer) : Session V :=
  ⟨s.Authenticated p q, s.NonceA p q, s.NonceB p q, s.Tag p q, s.T2Start p q⟩

/-- The phases come in their order, and what is authenticated was verified with the shared key in time. -/
structure Session.Sound (now : ℤ) (S : Session V) : Prop where
  nonceA : S.nonceA ∈ C.Nonces256 ∪ {C.NULL}
  nonceB : S.nonceB ∈ C.Nonces256 ∪ {C.NULL}
  started : 0 ≤ S.start
  second : S.nonceA ≠ C.NULL → S.nonceB ≠ C.NULL ∧ S.nonceA ≠ S.nonceB
  third : S.tag ≠ C.NULL → S.nonceA ≠ C.NULL
  verified : S.authenticated = true → S.tag ≠ C.NULL ∧
    S.tag = C.MAC C.K (C.triple C.Ctx S.nonceA S.nonceB) ∧ now - S.start ≤ C.T2

structure Inductive (s : State Peer V) : Prop where
  secrets : ∀ p, s.Secrets p = C.K
  now : 0 ≤ s.Now
  sessions : ∀ p q, (s.session p q).Sound C s.Now

section Proofs

variable {C} {s s' : State Peer V} {p q : Peer}

theorem inductive_init : Inductive C (Init C) where
  secrets p := by
    unfold Init
    exact ite_self _
  now := le_rfl
  sessions p q :=
    { nonceA := .inr rfl
      nonceB := .inr rfl
      started := le_rfl
      second := fun hset => absurd rfl hset
      third := fun hset => absurd rfl hset
      verified := nofun }

/-- An action of one session leaves the others sound. -/
theorem Inductive.of_session (hinv : Inductive C s) (hsecrets : s'.Secrets = s.Secrets)
    (hnow : s'.Now = s.Now)
    (hothers : ∀ p' q', ¬ (p' = p ∧ q' = q) → s'.session p' q' = s.session p' q')
    (hthis : (s'.session p q).Sound C s.Now) : Inductive C s' where
  secrets p' := by
    rw [hsecrets]
    exact hinv.secrets p'
  now := by
    rw [hnow]
    exact hinv.now
  sessions p' q' := by
    rw [hnow]
    by_cases hhere : p' = p ∧ q' = q
    · obtain ⟨rfl, rfl⟩ := hhere
      exact hthis
    · rw [hothers p' q' hhere]
      exact hinv.sessions p' q'

variable [DecidableEq Peer]

/-- Nothing of the session exists before its first nonce. -/
theorem Inductive.phase1 (hinv : Inductive C s) (hstep : Phase1 C p q s s') : Inductive C s' := by
  obtain ⟨hnull, n, hn, rfl⟩ := hstep
  have hsound := hinv.sessions p q
  have hA : s.NonceA p q = C.NULL := by
    by_contra hset
    exact (hsound.second hset).1 hnull
  refine Inductive.of_session (p := p) (q := q) hinv rfl rfl ?_ ?_
  · intro p' q' hother
    apply Session.ext <;> try rfl
    exact except₂_of_ne hother
  · refine { hsound with nonceB := ?_, second := ?_, verified := ?_ }
    · show except₂ _ p q n p q ∈ _
      rw [except₂_self]
      exact .inl hn
    · intro hset
      exact absurd hA hset
    · intro hauthenticated
      exact absurd hA (hsound.third (hsound.verified hauthenticated).1)

/-- The second nonce is not the first. -/
theorem Inductive.phase2 (hinv : Inductive C s) (hstep : Phase2 C p q s s') : Inductive C s' := by
  obtain ⟨hB, hA, n, hn, hfresh, rfl⟩ := hstep
  have hsound := hinv.sessions p q
  have htag : s.Tag p q = C.NULL := by
    by_contra hset
    exact hsound.third hset hA
  refine Inductive.of_session (p := p) (q := q) hinv rfl rfl ?_ ?_
  · intro p' q' hother
    apply Session.ext <;> try rfl
    · exact except₂_of_ne hother
    · exact except₂_of_ne hother
  · refine ⟨?_, hsound.nonceB, ?_, ?_, ?_, ?_⟩
    · show except₂ _ p q n p q ∈ _
      rw [except₂_self]
      exact .inl hn
    · show 0 ≤ except₂ _ p q s.Now p q
      rw [except₂_self]
      exact hinv.now
    · intro _
      refine ⟨hB, ?_⟩
      show except₂ _ p q n p q ≠ _
      rw [except₂_self]
      exact hfresh
    · intro hset
      exact absurd htag hset
    · intro hauthenticated
      exact absurd htag (hsound.verified hauthenticated).1

theorem Inductive.phase3 (hinv : Inductive C s) (hstep : Phase3 C p q s s') : Inductive C s' := by
  obtain ⟨hA, hB, hnull, rfl⟩ := hstep
  have hsound := hinv.sessions p q
  refine Inductive.of_session (p := p) (q := q) hinv rfl rfl ?_ ?_
  · intro p' q' hother
    apply Session.ext <;> try rfl
    exact except₂_of_ne hother
  · refine { hsound with third := fun _ => hA, verified := ?_ }
    intro hauthenticated
    exact absurd hnull (hsound.verified hauthenticated).1

theorem Inductive.verify (hinv : Inductive C s) (hstep : Verify C p q s s') : Inductive C s' := by
  obtain ⟨htag, htime, hmac, rfl⟩ := hstep
  have hsound := hinv.sessions p q
  refine Inductive.of_session (p := p) (q := q) hinv rfl rfl ?_ ?_
  · intro p' q' hother
    apply Session.ext <;> try rfl
    exact except₂_of_ne hother
  · refine { hsound with verified := fun _ => ⟨htag, ?_, htime⟩ }
    rw [hinv.secrets p] at hmac
    exact hmac

omit [DecidableEq Peer]

/-- What time goes on for is in time still. -/
theorem Inductive.advance (hinv : Inductive C s) (hstep : Advance C s s') : Inductive C s' := by
  obtain rfl := hstep
  refine ⟨hinv.secrets, Int.add_nonneg hinv.now Int.one_nonneg, ?_⟩
  intro p q
  refine { hinv.sessions p q with verified := ?_ }
  intro hauthenticated
  change (if _ then false else s.Authenticated p q) = true at hauthenticated
  split at hauthenticated
  case isTrue hexpired => cases hauthenticated
  case isFalse hin =>
    obtain ⟨htag, hmac, -⟩ := (hinv.sessions p q).verified hauthenticated
    refine ⟨htag, hmac, not_lt.mp ?_⟩
    intro hout
    exact hin ⟨hauthenticated, hout⟩

theorem Inductive.typeOK (hinv : Inductive C s) : TypeOK C s where
  NonceA p q := (hinv.sessions p q).nonceA
  NonceB p q := (hinv.sessions p q).nonceB
  Tag _ _ := Classical.em _
  T2Start p q := (hinv.sessions p q).started
  Now := hinv.now

theorem Inductive.freshNonces (hinv : Inductive C s) : FreshNonces C s := by
  intro p q
  have hsound := hinv.sessions p q
  refine ⟨?_, ?_, ?_⟩
  · intro hset
    exact hsound.nonceA.resolve_right hset
  · intro hset
    exact hsound.nonceB.resolve_right hset
  · rintro ⟨hset, -⟩
    exact (hsound.second hset).2

theorem Inductive.safetyInvariant (hinv : Inductive C s) : SafetyInvariant C s := by
  intro p q hauthenticated
  obtain ⟨htag, hmac, htime⟩ := (hinv.sessions p q).verified hauthenticated
  rw [hinv.secrets p, hinv.secrets q]
  exact ⟨htag, ⟨hmac, hmac⟩, htime⟩

variable [DecidableEq Peer]

theorem Inductive.next (hinv : Inductive C s) (hnext : Next C s s') : Inductive C s' := by
  rcases hnext with ⟨p, q, h₁⟩ | ⟨p, q, h₂⟩ | ⟨p, q, h₃⟩ | ⟨p, q, hverify⟩ | hadvance
  · exact hinv.phase1 h₁
  · exact hinv.phase2 h₂
  · exact hinv.phase3 h₃
  · exact hinv.verify hverify
  · exact hinv.advance hadvance

end Proofs

/-- The theorem of the module, for any constants: even the null value may be a nonce. -/
theorem spec_safe_auth [DecidableEq Peer] (C : Constants Peer V) :
    (Spec C).Always fun s => TypeOK C s ∧ FreshNonces C s ∧ SafetyInvariant C s := by
  have hinductive : (Spec C).Always (Inductive C) := by
    apply Specification.always_of_inductive
    · rintro s rfl
      exact inductive_init
    · intro s s' hinv hnext
      exact hinv.next hnext
  intro b hbehaviour n
  have hinv := hinductive b hbehaviour n
  exact ⟨hinv.typeOK, hinv.freshNonces, hinv.safetyInvariant⟩

end Gridnet.ZeroKnowledgeAuth
