import Gridnet.Behaviours
import Mathlib.Data.Set.Insert

/-! The specification of WebRTC swarm signalling: peers join swarms at full nodes and ask for offers, full
nodes forward what they have not seen, and time goes on. Its invariants hold in every behaviour, for any
constants. -/

namespace Gridnet.SwarmSignaling

open Behaviours

inductive MemberStatus where
  | none
  | unauthenticated
  | authenticated
  deriving DecidableEq

inductive PeerState where
  | idle
  | joining
  | joinConfirmed
  | connecting
  | connected
  deriving DecidableEq

inductive ConnectionState where
  | none
  | offerSent
  | answerSent
  | iceExchange
  | connected
  deriving DecidableEq

inductive MessageType where
  | joining
  | getOffer
  deriving DecidableEq

variable {Peer FullNode Swarm V : Type*}

/-- The constants beside the peers, full nodes and swarms. The null value may be any value. -/
structure Constants (V : Type*) where
  SessionIDs : Set V
  SDPOffers : Set V
  SDPAnswers : Set V
  MsgIDs : Set V
  TTLMax : ℕ
  NULL : V

/-- A message. A join goes to a full node, a request for an offer to peers. -/
structure Message (Peer FullNode V : Type*) where
  type : MessageType
  source : Peer
  target : Set (FullNode ⊕ Peer)
  msgID : V
  ttl : ℤ
  payload : List V := []

structure State (Peer FullNode Swarm V : Type*) where
  swarmMembers : FullNode → Swarm → Set Peer
  memberStatus : FullNode → Swarm → Peer → MemberStatus
  peerState : Peer → PeerState
  connectionState : Peer → Peer → ConnectionState
  activeOffers : Peer → Peer → V
  activeAnswers : Peer → Peer → V
  sessionIDs : Peer → Peer → V
  messagesInTransit : List (Message Peer FullNode V)
  seenMsgIDs : FullNode → Set V
  lastJoinTime : Peer → ℤ
  Now : ℤ
  usedMsgIDs : Set V

section Actions

variable [DecidableEq Peer] [DecidableEq FullNode] [DecidableEq Swarm] (C : Constants V)

def Init : State Peer FullNode Swarm V where
  swarmMembers _ _ := ∅
  memberStatus _ _ _ := .none
  peerState _ := .idle
  connectionState _ _ := .none
  activeOffers _ _ := C.NULL
  activeAnswers _ _ := C.NULL
  sessionIDs _ _ := C.NULL
  messagesInTransit := []
  seenMsgIDs _ := ∅
  lastJoinTime _ := 0
  Now := 0
  usedMsgIDs := ∅

def SendJoin (p : Peer) (sw : Swarm) (fn : FullNode) (s s' : State Peer FullNode Swarm V) : Prop :=
  s.peerState p = .idle ∧ s.Now - s.lastJoinTime p ≥ 5 ∧
    ∃ mid ∈ C.MsgIDs \ s.usedMsgIDs, s' =
      { s with
        peerState := Function.update s.peerState p .joining
        lastJoinTime := Function.update s.lastJoinTime p s.Now
        swarmMembers := except₂ s.swarmMembers fn sw (s.swarmMembers fn sw ∪ {p})
        memberStatus := except₃ s.memberStatus fn sw p .unauthenticated
        messagesInTransit := s.messagesInTransit ++
          [{ type := .joining, source := p, target := {.inl fn}, msgID := mid, ttl := C.TTLMax }]
        usedMsgIDs := s.usedMsgIDs ∪ {mid} }

def BroadcastGetOffer (p : Peer) (sw : Swarm) (fn : FullNode) (s s' : State Peer FullNode Swarm V) :
    Prop :=
  s.memberStatus fn sw p = .unauthenticated ∧ s.peerState p = .joining ∧
    ∃ mid ∈ C.MsgIDs \ s.usedMsgIDs, s' =
      { s with
        peerState := Function.update s.peerState p .joinConfirmed
        messagesInTransit := s.messagesInTransit ++
          [{ type := .getOffer, source := p, target := Sum.inr '' (s.swarmMembers fn sw \ {p})
             msgID := mid, ttl := C.TTLMax }]
        usedMsgIDs := s.usedMsgIDs ∪ {mid} }

/-- A message that is forwarded leaves the queue. -/
def Forward (n : FullNode) (s s' : State Peer FullNode Swarm V) : Prop :=
  0 < s.messagesInTransit.length ∧
    ∃ i, 1 ≤ i ∧ i ≤ s.messagesInTransit.length ∧ ∃ m, elem s.messagesInTransit i = some m ∧
      (m.type = .joining ∨ m.type = .getOffer) ∧ 0 < m.ttl ∧ m.msgID ∉ s.seenMsgIDs n ∧ s' =
        { s with
          seenMsgIDs := Function.update s.seenMsgIDs n (s.seenMsgIDs n ∪ {m.msgID})
          messagesInTransit := SubSeq s.messagesInTransit 1 (i - 1) ++
            SubSeq s.messagesInTransit (i + 1) s.messagesInTransit.length }

def AdvanceTime (delta : ℤ) (s s' : State Peer FullNode Swarm V) : Prop :=
  0 < delta ∧ s' = { s with Now := s.Now + delta }

def Next (s s' : State Peer FullNode Swarm V) : Prop :=
  (∃ p sw fn, SendJoin C p sw fn s s') ∨ (∃ p sw fn, BroadcastGetOffer C p sw fn s s') ∨
    (∃ n, Forward n s s') ∨ ∃ delta ∈ ({1, 2, 5} : Set ℤ), AdvanceTime delta s s'

def Spec : Specification (State Peer FullNode Swarm V) where
  Init s := s = Init C
  Next := Next C

end Actions

/-! ### The invariants of the theorem -/

section Invariants

variable (C : Constants V) (s : State Peer FullNode Swarm V)

/-- The states of members, peers and connections are of their types by construction. -/
structure TypeOK : Prop where
  activeOffers : ∀ p q, s.activeOffers p q ∈ C.SDPOffers ∪ {C.NULL}
  activeAnswers : ∀ p q, s.activeAnswers p q ∈ C.SDPAnswers ∪ {C.NULL}
  sessionIDs : ∀ p q, s.sessionIDs p q ∈ C.SessionIDs ∪ {C.NULL}
  messagesInTransit : ∀ i, 1 ≤ i → i ≤ s.messagesInTransit.length →
    ∃ m, elem s.messagesInTransit i = some m ∧ m.msgID ∈ C.MsgIDs
  seenMsgIDs : ∀ fn, s.seenMsgIDs fn ⊆ C.MsgIDs
  lastJoinTime : ∀ p, 0 ≤ s.lastJoinTime p
  Now : 0 ≤ s.Now

/-- No message ID is twice in the queue. -/
def Invariant_NoDupForward [DecidableEq V] : Prop :=
  ∀ mid ∈ C.MsgIDs, ((Finset.Icc 1 s.messagesInTransit.length).filter fun i =>
    (elem s.messagesInTransit i).map Message.msgID = some mid).card ≤ 1

def Invariant_TTLNonNegative : Prop :=
  ∀ i, 1 ≤ i → i ≤ s.messagesInTransit.length →
    ∃ m, elem s.messagesInTransit i = some m ∧ 0 ≤ m.ttl

def Invariant1 : Prop :=
  ∀ p q, p ≠ q →
    ¬ (s.connectionState p q = .offerSent ∧ s.connectionState q p = .offerSent) ∧
      ¬ (s.activeOffers p q ≠ C.NULL ∧ s.activeOffers q p ≠ C.NULL)

def Invariant2 : Prop :=
  ∀ sw fn₁ fn₂ p, p ∈ s.swarmMembers fn₁ sw → p ∈ s.swarmMembers fn₂ sw →
    s.memberStatus fn₁ sw p = s.memberStatus fn₂ sw p

/-- What every action keeps: nobody connects, members are unauthenticated, and the messages in transit have
distinct used IDs. -/
structure Inductive : Prop where
  unconnected : ∀ p q, s.connectionState p q = .none
  noOffers : ∀ p q, s.activeOffers p q = C.NULL
  noAnswers : ∀ p q, s.activeAnswers p q = C.NULL
  noSessions : ∀ p q, s.sessionIDs p q = C.NULL
  members : ∀ fn sw p, p ∈ s.swarmMembers fn sw → s.memberStatus fn sw p = .unauthenticated
  used : ∀ m ∈ s.messagesInTransit, m.msgID ∈ s.usedMsgIDs ∧ 0 ≤ m.ttl
  issued : s.usedMsgIDs ⊆ C.MsgIDs
  distinct : (s.messagesInTransit.map Message.msgID).Nodup
  seen : ∀ fn, s.seenMsgIDs fn ⊆ C.MsgIDs
  joined : ∀ p, 0 ≤ s.lastJoinTime p
  started : 0 ≤ s.Now

end Invariants

section Proofs

variable {C : Constants V} {s s' : State Peer FullNode Swarm V}

/-- A message with an unused ID joins the queue. -/
theorem Inductive.send (hinv : Inductive C s) {mid : V} (hfresh : mid ∈ C.MsgIDs \ s.usedMsgIDs)
    {m : Message Peer FullNode V} (hmid : m.msgID = mid) (httl : m.ttl = C.TTLMax) :
    (∀ sent ∈ s.messagesInTransit ++ [m], sent.msgID ∈ s.usedMsgIDs ∪ {mid} ∧ 0 ≤ sent.ttl) ∧
      s.usedMsgIDs ∪ {mid} ⊆ C.MsgIDs ∧
      ((s.messagesInTransit ++ [m]).map Message.msgID).Nodup := by
  refine ⟨?_, ?_, ?_⟩
  · intro sent hsent
    rcases List.mem_append.mp hsent with hold | hnew
    · exact ⟨.inl (hinv.used sent hold).1, (hinv.used sent hold).2⟩
    · rw [List.mem_singleton.mp hnew, httl]
      exact ⟨.inr hmid, Int.natCast_nonneg _⟩
  · rintro used (hold | rfl)
    · exact hinv.issued hold
    · exact hfresh.1
  · rw [List.map_append, List.map_singleton, List.nodup_append]
    refine ⟨hinv.distinct, List.nodup_singleton _, ?_⟩
    intro old hold new hnew
    rw [List.mem_singleton.mp hnew, hmid]
    rintro rfl
    obtain ⟨sent, hsent, hid⟩ := List.mem_map.mp hold
    rw [← hid] at hfresh
    exact hfresh.2 (hinv.used sent hsent).1

variable [DecidableEq Peer] [DecidableEq FullNode] [DecidableEq Swarm]

/-- A join makes one more member, unauthenticated where it joins. -/
theorem members_join (hinv : Inductive C s) (p : Peer) (sw : Swarm) (fn : FullNode) :
    ∀ fn' sw' p', p' ∈ except₂ s.swarmMembers fn sw (s.swarmMembers fn sw ∪ {p}) fn' sw' →
      except₃ s.memberStatus fn sw p .unauthenticated fn' sw' p' = .unauthenticated := by
  intro fn' sw' p'
  unfold except₃
  by_cases hhere : fn' = fn ∧ sw' = sw
  · obtain ⟨rfl, rfl⟩ := hhere
    rw [except₂_self, except₂_self]
    rcases eq_or_ne p' p with rfl | hp
    · rw [Function.update_self]
      exact fun _ => rfl
    · rw [Function.update_of_ne hp]
      rintro (hmember | hself)
      · exact hinv.members _ _ _ hmember
      · exact absurd hself hp
  · rw [except₂_of_ne hhere, except₂_of_ne hhere]
    exact hinv.members _ _ _

theorem Inductive.sendJoin (hinv : Inductive C s) {p : Peer} {sw : Swarm} {fn : FullNode}
    (hstep : SendJoin C p sw fn s s') : Inductive C s' := by
  obtain ⟨-, -, mid, hfresh, rfl⟩ := hstep
  obtain ⟨hused, hissued, hdistinct⟩ := hinv.send hfresh
    (m := { type := .joining, source := p, target := {.inl fn}, msgID := mid, ttl := C.TTLMax }) rfl rfl
  refine { hinv with
    members := members_join hinv p sw fn
    used := hused, issued := hissued, distinct := hdistinct, joined := ?_ }
  intro p'
  show 0 ≤ Function.update s.lastJoinTime p s.Now p'
  rcases eq_or_ne p' p with rfl | hp
  · rw [Function.update_self]
    exact hinv.started
  · rw [Function.update_of_ne hp]
    exact hinv.joined p'

omit [DecidableEq FullNode] [DecidableEq Swarm] in
theorem Inductive.broadcastGetOffer (hinv : Inductive C s) {p : Peer} {sw : Swarm} {fn : FullNode}
    (hstep : BroadcastGetOffer C p sw fn s s') : Inductive C s' := by
  obtain ⟨-, -, mid, hfresh, rfl⟩ := hstep
  obtain ⟨hused, hissued, hdistinct⟩ := hinv.send hfresh
    (m := { type := .getOffer, source := p, target := Sum.inr '' (s.swarmMembers fn sw \ {p})
            msgID := mid, ttl := C.TTLMax }) rfl rfl
  exact { hinv with used := hused, issued := hissued, distinct := hdistinct }

omit [DecidableEq Peer] [DecidableEq Swarm] in
theorem Inductive.forward (hinv : Inductive C s) {n : FullNode} (hstep : Forward n s s') :
    Inductive C s' := by
  obtain ⟨-, i, hi, -, m, hm, -, -, -, rfl⟩ := hstep
  have hsub : (s.messagesInTransit.eraseIdx (i - 1)).Sublist s.messagesInTransit :=
    List.eraseIdx_sublist _ _
  refine { hinv with used := ?_, distinct := ?_, seen := ?_ }
  · intro sent hsent
    rw [subSeq_append_subSeq hi] at hsent
    exact hinv.used sent (hsub.subset hsent)
  · show ((SubSeq _ _ _ ++ SubSeq _ _ _).map Message.msgID).Nodup
    rw [subSeq_append_subSeq hi]
    exact (hsub.map _).nodup hinv.distinct
  · intro fn
    show Function.update s.seenMsgIDs n (s.seenMsgIDs n ∪ {m.msgID}) fn ⊆ C.MsgIDs
    rcases eq_or_ne fn n with rfl | hfn
    · rw [Function.update_self]
      rintro id (hold | rfl)
      · exact hinv.seen fn hold
      · exact hinv.issued (hinv.used m (mem_of_elem hm)).1
    · rw [Function.update_of_ne hfn]
      exact hinv.seen fn

omit [DecidableEq Peer] [DecidableEq FullNode] [DecidableEq Swarm] in
theorem Inductive.advanceTime (hinv : Inductive C s) {delta : ℤ} (hstep : AdvanceTime delta s s') :
    Inductive C s' := by
  obtain ⟨hpos, rfl⟩ := hstep
  exact { hinv with started := Int.add_nonneg hinv.started hpos.le }

theorem Inductive.next (hinv : Inductive C s) (hnext : Next C s s') : Inductive C s' := by
  rcases hnext with ⟨p, sw, fn, hjoin⟩ | ⟨p, sw, fn, hget⟩ | ⟨n, hforward⟩ | ⟨delta, -, hadvance⟩
  · exact hinv.sendJoin hjoin
  · exact hinv.broadcastGetOffer hget
  · exact hinv.forward hforward
  · exact hinv.advanceTime hadvance

omit [DecidableEq Peer] [DecidableEq FullNode] [DecidableEq Swarm] in
theorem inductive_init : Inductive C (Init C : State Peer FullNode Swarm V) where
  unconnected _ _ := rfl
  noOffers _ _ := rfl
  noAnswers _ _ := rfl
  noSessions _ _ := rfl
  members _ _ _ := nofun
  used _ := nofun
  issued _ := nofun
  distinct := List.nodup_nil
  seen _ _ := nofun
  joined _ := le_rfl
  started := le_rfl

omit [DecidableEq Peer] [DecidableEq FullNode] [DecidableEq Swarm]

theorem Inductive.elem_mem {i : ℕ} (hi : 1 ≤ i) (hi' : i ≤ s.messagesInTransit.length) :
    ∃ m, elem s.messagesInTransit i = some m ∧ m ∈ s.messagesInTransit := by
  have hlt : i - 1 < s.messagesInTransit.length := by omega
  exact ⟨_, List.getElem?_eq_getElem hlt, List.getElem_mem hlt⟩

theorem Inductive.typeOK (hinv : Inductive C s) : TypeOK C s where
  activeOffers p q := .inr (hinv.noOffers p q)
  activeAnswers p q := .inr (hinv.noAnswers p q)
  sessionIDs p q := .inr (hinv.noSessions p q)
  messagesInTransit i hi hi' := by
    obtain ⟨m, helem, hmem⟩ := Inductive.elem_mem hi hi'
    exact ⟨m, helem, hinv.issued (hinv.used m hmem).1⟩
  seenMsgIDs := hinv.seen
  lastJoinTime := hinv.joined
  Now := hinv.started

theorem Inductive.invariant1 (hinv : Inductive C s) : Invariant1 C s := by
  intro p q _
  constructor
  · rintro ⟨hsent, -⟩
    rw [hinv.unconnected p q] at hsent
    cases hsent
  · rintro ⟨hactive, -⟩
    exact hactive (hinv.noOffers p q)

theorem Inductive.invariant2 (hinv : Inductive C s) : Invariant2 s := by
  intro sw fn₁ fn₂ p h₁ h₂
  rw [hinv.members fn₁ sw p h₁, hinv.members fn₂ sw p h₂]

theorem Inductive.noDupForward [DecidableEq V] (hinv : Inductive C s) : Invariant_NoDupForward C s :=
  fun mid _ => card_places_le_one hinv.distinct mid

theorem Inductive.ttlNonNegative (hinv : Inductive C s) : Invariant_TTLNonNegative s := by
  intro i hi hi'
  obtain ⟨m, helem, hmem⟩ := Inductive.elem_mem hi hi'
  exact ⟨m, helem, (hinv.used m hmem).2⟩

end Proofs

/-- The theorem of the module: all invariants hold in every state of every behaviour. -/
theorem spec_safe [DecidableEq Peer] [DecidableEq FullNode] [DecidableEq Swarm] [DecidableEq V]
    (C : Constants V) :
    (Spec C : Specification (State Peer FullNode Swarm V)).Always fun s =>
      TypeOK C s ∧ Invariant1 C s ∧ Invariant2 s ∧ Invariant_NoDupForward C s ∧
        Invariant_TTLNonNegative s := by
  have hinductive : (Spec C : Specification (State Peer FullNode Swarm V)).Always (Inductive C) := by
    apply Specification.always_of_inductive
    · rintro s rfl
      exact inductive_init
    · intro s s' hinv hnext
      exact hinv.next hnext
  intro b hbehaviour n
  have hinv := hinductive b hbehaviour n
  exact ⟨hinv.typeOK, hinv.invariant1, hinv.invariant2, hinv.noDupForward, hinv.ttlNonNegative⟩

end Gridnet.SwarmSignaling
