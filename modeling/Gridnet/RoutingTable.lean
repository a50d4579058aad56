import Gridnet.Bytes
import Mathlib.Data.List.Dedup
import Mathlib.Logic.Function.Basic
import Mathlib.Tactic.Common

/-! The routing table of the data router. Entries are shared: an entry that is added again, because a shorter path was
announced, keeps its next hop and its distance. So a destination goes on being reached the way that was learned first,
until that next hop leaves; only the datagrams of authenticated peers put a route over an older one. -/

namespace Gridnet

namespace CDataRouter

inductive eEndpointType where
  | IPv4
  | IPv6
  | MAC
  | PeerID
  | TerminalID
  | WebSockConversation
  | UDTConversation
  | WebRTCSwarm
  | VM
  | SwarmMember
  | QUICConversation
  deriving DecidableEq

inductive eRouteKowledgeSource where
  | propagation
  | Kademlia
  | manual
  | WebRTCSwarm
  | sessionHandshake
  deriving DecidableEq

structure CEndPoint where
  mAddress : Bytes
  mType : eEndpointType
  mPortNumber : ℕ
  mPubKey : Bytes

/-- `operator==`. -/
def CEndPoint.same (e1 e2 : CEndPoint) : Bool :=
  e1.mAddress == e2.mAddress && e1.mPortNumber == e2.mPortNumber && e1.mType == e2.mType

/-- What a table entry is looked up by. -/
abbrev Destination := eEndpointType × Bytes

def CEndPoint.destination (e : CEndPoint) : Destination := (e.mType, e.mAddress)

/-- The constructor, as `updateRT` calls it with port 1. A MAC endpoint has no port, which is asserted. -/
def CEndPoint.ofSource (address : Bytes) (type : eEndpointType) : Option CEndPoint :=
  match type with
  | .IPv4 => some ⟨address, type, 1, []⟩
  | .IPv6 => some ⟨address, type, 1, []⟩
  | .MAC => none
  | _ => some ⟨address, type, 0, []⟩

structure CNetMsg where
  mSource : Bytes
  mSourceType : eEndpointType
  mHops : ℕ
  mSourceSeq : ℕ
  mSig : Bytes
  getImage : Bytes

structure CRTEntry where
  mHops : ℕ
  mDstSeq : ℕ
  mDstPubKey : Bytes
  mNextHop : CEndPoint
  mDestination : CEndPoint
  mTimestamp : ℕ
  mKnowledgeSource : eRouteKowledgeSource

/-- The table, as the identifiers of its entries; an entry can stand in it more than once. -/
structure Table where
  mEntries : List ℕ
  entry : ℕ → CRTEntry
  sIDGenerator : ℕ

/-- What identifies a peer that signs its datagrams. -/
structure CCryptoFactory where
  verifySignature : Bytes → Bytes → Bytes → Bool
  genAddress : Bytes → Option Bytes

/-! ### The table -/

def Table.setEntry (s : Table) (i : ℕ) (entry : CRTEntry) : Table :=
  { s with entry := Function.update s.entry i entry }

/-- `CRTEntry::ping`. -/
def Table.ping (s : Table) (now i : ℕ) : Table := s.setEntry i { s.entry i with mTimestamp := now }

def Table.addRTEntry (s : Table) (i : ℕ) : Table := { s with mEntries := s.mEntries ++ [i] }

/-- A new entry, with the next identifier. -/
def Table.newEntry (s : Table) (entry : CRTEntry) : Table :=
  { s.setEntry (s.sIDGenerator + 1) entry with sIDGenerator := s.sIDGenerator + 1 }.addRTEntry (s.sIDGenerator + 1)

/-- The ad-hoc sorting: before the first entry that is longer or older. -/
def Table.insertBefore (s : Table) (i : ℕ) : List ℕ → List ℕ
  | [] => []
  | a :: toRet =>
      if (s.entry a).mHops > (s.entry i).mHops ∨ (s.entry a).mTimestamp < (s.entry i).mTimestamp then i :: a :: toRet
      else a :: s.insertBefore i toRet

/-- An entry is put at the end as well, whether it was inserted or not. -/
def Table.insertFound (s : Table) (toRet : List ℕ) (i : ℕ) : List ℕ :=
  if toRet = [] then [i] else s.insertBefore i toRet ++ [i]

/-- The entries of the table for a destination. -/
def Table.matching (s : Table) (d : Destination) : List ℕ :=
  s.mEntries.filter fun i => (s.entry i).mDestination.destination = d

def Table.findEntriesForDest (s : Table) (d : Destination) : List ℕ := (s.matching d).foldl s.insertFound []

def Table.findEntryForDest (s : Table) (now : ℕ) (d : Destination) (pingEntry : Bool) : Table × Option ℕ :=
  match (s.findEntriesForDest d).head? with
  | none => (s, none)
  | some i => (if pingEntry then s.ping now i else s, some i)

/-- The `!` is applied to the timestamp and not to the comparison. -/
def Table.cleanTable (s : Table) (now : ℕ) : Table :=
  { s with mEntries := s.mEntries.filter fun i =>
      !decide ((if (s.entry i).mTimestamp = 0 then 1 else 0) > now ∧ ¬1800 > (s.entry i).mTimestamp ∧
        (now + 2 ^ 64 - (s.entry i).mTimestamp) % 2 ^ 64 > 1800) }

def Table.removeEntriesWithNextHop (s : Table) (nextHop : CEndPoint) : Table :=
  { s with mEntries := s.mEntries.filter fun i => !(s.entry i).mNextHop.same nextHop }

/-! ### Updates -/

section Updates

variable (C : CCryptoFactory)

/-- `none` where a datagram does not prove its source, else the address that goes into the table in its place, if
any. -/
def CNetMsg.peerID (msg : CNetMsg) : Option Bytes :=
  if msg.mSourceType = .PeerID then
    if msg.mSource.length ≠ 32 then none
    else if msg.mSource = [] ∨ C.verifySignature msg.mSig msg.getImage msg.mSource = false then none
    else C.genAddress msg.mSource
  else some []

def CNetMsg.target (msg : CNetMsg) (peerID : Bytes) : Bytes := if peerID = [] then msg.mSource else peerID

/-- `getHops() + 1`, in 64 bits. -/
def CNetMsg.hops (msg : CNetMsg) : ℕ := (msg.mHops + 1) % 2 ^ 64

/-- An entry for the source was found: a longer one is put into the table again, and one with the same next hop gets the
newer sequence number. -/
def Table.updateEntry (s : Table) (msg : CNetMsg) (immediateSource : CEndPoint) (i : ℕ) : Table :=
  if (s.entry i).mHops > msg.hops then s.addRTEntry i
  else if (s.entry i).mNextHop.same immediateSource = true ∧ (s.entry i).mDstSeq < msg.mSourceSeq then
    s.setEntry i { s.entry i with mDstSeq := msg.mSourceSeq }
  else s

/-- `updateRT` for a datagram, by which its source is known to be reached through the immediate source. `none` where the
process ends at the assertion; the result says whether an entry is new. -/
def Table.updateRT (s : Table) (now : ℕ) (msg : Option CNetMsg) (immediateSource : Option CEndPoint) :
    Option (Table × Bool) :=
  match immediateSource, msg with
  | some immediateSource, some msg =>
      if msg.mSource = [] then some (s, false)
      else
        match msg.peerID C with
        | none => some (s, false)
        | some peerID =>
            let found := s.findEntryForDest now (msg.mSourceType, msg.mSource) true
            match CEndPoint.ofSource (msg.target peerID) msg.mSourceType with
            | none => none
            | some target =>
                match found.2 with
                | none => some (found.1.newEntry ⟨msg.hops, msg.mSourceSeq, [], immediateSource, target, now,
                    .propagation⟩, true)
                | some i => some (found.1.updateEntry msg immediateSource i, false)
  | _, _ => some (s, false)

/-- `updateRT` for an endpoint that the node itself knows to be reached through an immediate peer. -/
def Table.updateRTFor (s : Table) (now : ℕ) (destination immediatePeer : Option CEndPoint) (hopCount : ℕ)
    (knowledgeSource : eRouteKowledgeSource) : Table × Bool :=
  match destination, immediatePeer with
  | some destination, some immediatePeer =>
      let found := s.findEntryForDest now destination.destination true
      match found.2 with
      | none => (found.1.newEntry ⟨hopCount, 0, destination.mPubKey, immediatePeer, destination, now,
          knowledgeSource⟩, true)
      | some i =>
          if (found.1.entry i).mHops > (hopCount + 1) % 2 ^ 64 then (found.1.addRTEntry i, false)
          else if (found.1.entry i).mNextHop.same immediatePeer = true ∧ (found.1.entry i).mTimestamp ≤ now then
            (found.1.ping now i, false)
          else (found.1, false)
  | _, _ => (s, false)

end Updates

inductive Call where
  | updateRT (msg : Option CNetMsg) (immediateSource : Option CEndPoint)
  | updateRTFor (destination immediatePeer : Option CEndPoint) (hopCount : ℕ) (knowledgeSource : eRouteKowledgeSource)
  | removeEntriesWithNextHop (nextHop : Option CEndPoint)
  | findEntryForDest (d : Destination) (pingEntry : Bool)
  | cleanTable

/-- A call, made at a time of the clock. -/
def Table.step (C : CCryptoFactory) (s : Table) (call : ℕ × Call) : Option Table :=
  match call.2 with
  | .updateRT msg immediateSource => (s.updateRT C call.1 msg immediateSource).map Prod.fst
  | .updateRTFor destination immediatePeer hopCount knowledgeSource =>
      some (s.updateRTFor call.1 destination immediatePeer hopCount knowledgeSource).1
  | .removeEntriesWithNextHop nextHop => some (nextHop.elim s s.removeEntriesWithNextHop)
  | .findEntryForDest d pingEntry => some (s.findEntryForDest call.1 d pingEntry).1
  | .cleanTable => some (s.cleanTable call.1)

def Table.init (entry : CRTEntry) : Table := ⟨[], fun _ => entry, 0⟩

/-! ### What the table is for -/

/-- How a destination is reached. -/
structure Route where
  nextHop : CEndPoint
  hops : ℕ

/-- The routes of each destination, the one that is used first. -/
abbrev Routes := Destination → List Route

/-- A route for `target` is learned where there is none for `d`. -/
def Routes.learn (routes : Routes) (d target : Destination) (route : Route) : Routes :=
  if routes d = [] then Function.update routes target (route :: routes target) else routes

def Routes.forget (routes : Routes) (nextHop : CEndPoint) : Routes :=
  fun d => (routes d).filter fun route => !route.nextHop.same nextHop

def Routes.step (C : CCryptoFactory) (routes : Routes) : Call → Routes
  | .updateRT (some msg) (some immediateSource) =>
      if msg.mSource = [] then routes
      else (msg.peerID C).elim routes fun peerID =>
        routes.learn (msg.mSourceType, msg.mSource) (msg.mSourceType, msg.target peerID) ⟨immediateSource, msg.hops⟩
  | .updateRTFor (some destination) (some immediatePeer) hopCount _ =>
      routes.learn destination.destination destination.destination ⟨immediatePeer, hopCount⟩
  | .removeEntriesWithNextHop (some nextHop) => routes.forget nextHop
  | _ => routes

/-! ### The entry that is found -/

section Found

variable {s : Table} {d : Destination} {i : ℕ}

theorem mem_insertFound {toRet : List ℕ} {j : ℕ} : j ∈ s.insertFound toRet i → j ∈ toRet ∨ j = i := by
  have hbefore : ∀ toRet : List ℕ, j ∈ s.insertBefore i toRet → j ∈ toRet ∨ j = i := by
    intro toRet
    induction toRet with
    | nil => exact fun hmem => absurd hmem List.not_mem_nil
    | cons a toRet ih =>
        unfold Table.insertBefore
        split_ifs
        · exact fun hmem => (List.mem_cons.mp hmem).symm
        · intro hmem
          rcases List.mem_cons.mp hmem with rfl | hmem
          · exact .inl List.mem_cons_self
          · exact (ih hmem).imp_left (List.mem_cons_of_mem a)
  unfold Table.insertFound
  split_ifs
  · exact fun hmem => .inr (List.mem_singleton.mp hmem)
  · intro hmem
    exact (List.mem_append.mp hmem).elim (hbefore toRet) fun hmem => .inr (List.mem_singleton.mp hmem)

theorem insertFound_ne_nil (toRet : List ℕ) : s.insertFound toRet i ≠ [] := by
  unfold Table.insertFound
  split_ifs <;> simp

/-- What is first after an entry was put in. -/
theorem head_insertFound {a : ℕ} {toRet : List ℕ} (hhead : toRet.head? = some a) :
    (s.insertFound toRet i).head? =
      some (if (s.entry a).mHops > (s.entry i).mHops ∨ (s.entry a).mTimestamp < (s.entry i).mTimestamp then i
        else a) := by
  obtain ⟨rest, rfl⟩ := List.head?_eq_some_iff.mp hhead
  unfold Table.insertFound Table.insertBefore
  rw [if_neg (List.cons_ne_nil a rest)]
  split_ifs <;> rfl

theorem head_mem (hhead : (s.findEntriesForDest d).head? = some i) : i ∈ s.matching d := by
  have hmem : ∀ l toRet : List ℕ, i ∈ l.foldl s.insertFound toRet → i ∈ toRet ∨ i ∈ l := by
    intro l
    induction l with
    | nil => exact fun toRet hmem => .inl hmem
    | cons j l ih =>
        intro toRet hmem
        rcases ih _ hmem with hmem | hmem
        · rcases mem_insertFound hmem with hmem | rfl
          · exact .inl hmem
          · exact .inr List.mem_cons_self
        · exact .inr (List.mem_cons_of_mem j hmem)
  exact (hmem _ _ (List.mem_of_head? hhead)).resolve_left List.not_mem_nil

theorem findEntriesForDest_eq_nil : s.findEntriesForDest d = [] ↔ s.matching d = [] := by
  unfold Table.findEntriesForDest
  rcases List.eq_nil_or_concat (s.matching d) with hnil | ⟨l, j, hconcat⟩
  · simp [hnil]
  · rw [hconcat, List.concat_eq_append, List.foldl_append]
    simp [insertFound_ne_nil]

/-- Of entries each of which is newer than those before it, the last is found. -/
theorem head_eq_getLast {l : List ℕ}
    (hnewer : l.Pairwise fun i j => i = j ∨ (s.entry i).mTimestamp < (s.entry j).mTimestamp) :
    (l.foldl s.insertFound []).head? = l.getLast? := by
  induction l using List.reverseRecOn with
  | nil => rfl
  | append_singleton l i ih =>
      rw [List.pairwise_append] at hnewer
      rw [List.foldl_append, List.getLast?_concat]
      rcases hlast : l.getLast? with _ | a
      · rw [List.getLast?_eq_none_iff.mp hlast]
        rfl
      · refine (head_insertFound ((ih hnewer.1).trans hlast)).trans (congrArg some ?_)
        have hmem : a ∈ l := List.mem_of_getLast? hlast
        rcases hnewer.2.2 a hmem i (List.mem_singleton_self i) with rfl | hless
        · exact ite_self a
        · exact if_pos (.inr hless)

end Found

/-! ### The entries as a stack -/

section Dedup

variable {α : Type*} [DecidableEq α] {l : List α} {a : α}

theorem dedup_concat_of_not_mem (hfresh : a ∉ l) : (l ++ [a]).dedup = l.dedup ++ [a] := by
  induction l with
  | nil => rfl
  | cons b l ih =>
      obtain ⟨hne, hfresh⟩ := not_or.mp (mt List.mem_cons.mpr hfresh)
      rw [List.cons_append, List.dedup_cons, List.dedup_cons, ih hfresh]
      have hmem : b ∈ l ++ [a] ↔ b ∈ l := by simp [Ne.symm hne]
      simp only [hmem]
      split_ifs <;> rfl

theorem dedup_concat_of_getLast (hlast : l.getLast? = some a) : (l ++ [a]).dedup = l.dedup := by
  obtain ⟨l, rfl⟩ := List.getLast?_eq_some_iff.mp hlast
  have htwice : [a, a].dedup = [a].dedup := by simp
  calc (l ++ [a] ++ [a]).dedup = (l ++ [a, a]).dedup := by rw [List.append_assoc, List.singleton_append]
    _ = (l ++ [a]).dedup := by rw [List.dedup_append, List.dedup_append, htwice]

theorem getLast_dedup (l : List α) : l.dedup.getLast? = l.getLast? := by
  induction l with
  | nil => rfl
  | cons b l ih =>
      rw [List.dedup_cons]
      split_ifs with hmem
      · obtain ⟨c, l, rfl⟩ := List.exists_cons_of_ne_nil (List.ne_nil_of_mem hmem)
        rw [ih, List.getLast?_cons_cons]
      · rw [List.getLast?_cons, List.getLast?_cons, ih]

theorem filter_dedup (p : α → Bool) (l : List α) : (l.filter p).dedup = l.dedup.filter p := by
  induction l with
  | nil => rfl
  | cons b l ih =>
      cases hb : p b with
      | false =>
          rw [List.filter_cons_of_neg (by simp [hb]), ih, List.dedup_cons]
          split_ifs
          · rfl
          · rw [List.filter_cons_of_neg (by simp [hb])]
      | true =>
          rw [List.filter_cons_of_pos hb, List.dedup_cons, List.dedup_cons, ih]
          simp only [List.mem_filter, hb, and_true]
          split_ifs
          · rfl
          · rw [List.filter_cons_of_pos hb]

end Dedup

/-! ### The table refines the routes -/

section Refinement

def Table.routeOf (s : Table) (i : ℕ) : Route := ⟨(s.entry i).mNextHop, (s.entry i).mHops⟩

/-- A destination has the routes of its entries. -/
structure Table.Tracks (s : Table) (routes : Routes) : Prop where
  known : ∀ i ∈ s.mEntries, i ≤ s.sIDGenerator
  mem_iff : ∀ d route, route ∈ routes d ↔ route ∈ (s.matching d).map s.routeOf

/-- The entries of a destination are its routes, the newest last; unless it is a peer, they are one entry. -/
structure Table.Refines (s : Table) (routes : Routes) (time : ℕ) (d : Destination) : Prop where
  order : (s.matching d).Pairwise fun i j =>
    i = j ∨ d.1 = .PeerID ∧ (s.entry i).mTimestamp < (s.entry j).mTimestamp
  past : d.1 = .PeerID → ∀ i ∈ s.matching d, (s.entry i).mTimestamp ≤ time
  routes : routes d = ((s.matching d).dedup.map s.routeOf).reverse

variable {s : Table} {routes : Routes} {time now i : ℕ} {d d' : Destination} {entry : CRTEntry}

theorem mem_matching : i ∈ s.matching d ↔ i ∈ s.mEntries ∧ (s.entry i).mDestination.destination = d := by
  simp [Table.matching]

theorem Table.Tracks.empty_iff (h : s.Tracks routes) (d : Destination) : routes d = [] ↔ s.matching d = [] := by
  rw [← List.map_eq_nil_iff (f := s.routeOf), List.eq_nil_iff_forall_not_mem, List.eq_nil_iff_forall_not_mem]
  exact forall_congr' fun route => not_congr (h.mem_iff d route)

theorem Table.Refines.head (h : s.Refines routes time d) :
    (s.findEntriesForDest d).head? = (s.matching d).getLast? :=
  head_eq_getLast (h.order.imp fun hor => hor.imp_right And.right)

theorem Table.Refines.head_route (h : s.Refines routes time d) :
    (s.findEntriesForDest d).head?.map s.routeOf = (routes d).head? := by
  rw [h.head, h.routes, List.head?_reverse, List.getLast?_map, getLast_dedup]

theorem Table.Refines.newest (h : s.Refines routes time d) (hlast : (s.matching d).getLast? = some i) {j : ℕ}
    (hj : j ∈ s.matching d) : j = i ∨ d.1 = .PeerID ∧ (s.entry j).mTimestamp < (s.entry i).mTimestamp := by
  obtain ⟨l, hl⟩ := List.getLast?_eq_some_iff.mp hlast
  have horder := h.order
  rw [hl] at hj horder
  rcases List.mem_append.mp hj with hj | hj
  · exact (List.pairwise_append.mp horder).2.2 j hj i (List.mem_singleton_self i)
  · exact .inl (List.mem_singleton.mp hj)

/-! An entry is changed, but not where it leads. -/

/-- The entries that lead to the same destination the same way. -/
structure SameRoute (e e' : CRTEntry) : Prop where
  destination : e'.mDestination.destination = e.mDestination.destination
  nextHop : e'.mNextHop = e.mNextHop
  hops : e'.mHops = e.mHops

theorem matching_setEntry (hsame : SameRoute (s.entry i) entry) (d : Destination) :
    (s.setEntry i entry).matching d = s.matching d := by
  refine List.filter_congr fun j _ => ?_
  by_cases hj : j = i
  · subst hj
    simp [Table.setEntry, hsame.destination]
  · simp [Table.setEntry, Function.update_of_ne hj]

theorem routeOf_setEntry (hsame : SameRoute (s.entry i) entry) : (s.setEntry i entry).routeOf = s.routeOf := by
  funext j
  by_cases hj : j = i
  · subst hj
    simp [Table.setEntry, Table.routeOf, hsame.nextHop, hsame.hops]
  · simp [Table.setEntry, Table.routeOf, Function.update_of_ne hj]

theorem Table.Tracks.setEntry (h : s.Tracks routes) (hsame : SameRoute (s.entry i) entry) :
    (s.setEntry i entry).Tracks routes where
  known := h.known
  mem_iff := fun d => by rw [matching_setEntry hsame, routeOf_setEntry hsame]; exact h.mem_iff d

theorem Table.Refines.setEntry (h : s.Refines routes time d) (hsame : SameRoute (s.entry i) entry)
    (hnow : d.1 = .PeerID → time ≤ now) (htime : entry.mTimestamp = (s.entry i).mTimestamp ∨
      entry.mTimestamp = now ∧ (d.1 = .PeerID → time < now) ∧
        (i ∈ s.matching d → (s.matching d).getLast? = some i)) :
    (s.setEntry i entry).Refines routes now d where
  order := by
    rw [matching_setEntry hsame]
    refine h.order.imp_of_mem fun {j k} hj hk hor => ?_
    by_cases hjk : j = k
    · exact .inl hjk
    · obtain ⟨hpeer, hless⟩ := hor.resolve_left hjk
      refine .inr ⟨hpeer, ?_⟩
      rcases htime with hkept | ⟨htime, hless', hlast⟩
      · have hunchanged : ∀ j, ((s.setEntry i entry).entry j).mTimestamp = (s.entry j).mTimestamp := by
          intro j
          by_cases hji : j = i
          · subst hji
            simp [Table.setEntry, hkept]
          · simp [Table.setEntry, Function.update_of_ne hji]
        rw [hunchanged, hunchanged]
        exact hless
      · by_cases hji : j = i
        · subst hji
          rcases h.newest (hlast hj) hk with rfl | hback
          · exact absurd rfl hjk
          · exact absurd hback.2 hless.asymm
        · by_cases hki : k = i
          · subst hki
            simpa [Table.setEntry, Function.update_of_ne hji, htime] using (h.past hpeer j hj).trans_lt (hless' hpeer)
          · simpa [Table.setEntry, Function.update_of_ne hji, Function.update_of_ne hki] using hless
  past := by
    intro hpeer j hj
    rw [matching_setEntry hsame] at hj
    have hpast := (h.past hpeer j hj).trans (hnow hpeer)
    by_cases hji : j = i
    · subst hji
      rcases htime with hkept | ⟨htime, -⟩
      · simpa [Table.setEntry, hkept] using hpast
      · simp [Table.setEntry, htime]
    · simpa [Table.setEntry, Function.update_of_ne hji] using hpast
  routes := by rw [matching_setEntry hsame, routeOf_setEntry hsame, h.routes]

/-- Looking an entry up, which makes it the newest. -/
theorem Table.Tracks.findEntryForDest (h : s.Tracks routes) (now : ℕ) (d' : Destination) (pingEntry : Bool) :
    (s.findEntryForDest now d' pingEntry).1.Tracks routes := by
  unfold Table.findEntryForDest
  cases (s.findEntriesForDest d').head? with
  | none => exact h
  | some i =>
      cases pingEntry
      · exact h
      · exact h.setEntry ⟨rfl, rfl, rfl⟩

theorem Table.Refines.later (h : s.Refines routes time d) (hnow : d.1 = .PeerID → time < now) :
    s.Refines routes now d where
  order := h.order
  past := fun hpeer i hi => (h.past hpeer i hi).trans (hnow hpeer).le
  routes := h.routes

theorem Table.Refines.ping (h : s.Refines routes time d) (hnow : d.1 = .PeerID → time < now)
    (hhead : (s.findEntriesForDest d').head? = some i) : (s.ping now i).Refines routes now d := by
  refine h.setEntry ⟨rfl, rfl, rfl⟩ (fun hpeer => (hnow hpeer).le) (.inr ⟨rfl, hnow, fun hmem => ?_⟩)
  have hd : d' = d := (mem_matching.mp (head_mem hhead)).2.symm.trans (mem_matching.mp hmem).2
  rw [← h.head, ← hd, hhead]

theorem Table.Refines.findEntryForDest (h : s.Refines routes time d) (hnow : d.1 = .PeerID → time < now)
    (d' : Destination) (pingEntry : Bool) : (s.findEntryForDest now d' pingEntry).1.Refines routes now d := by
  unfold Table.findEntryForDest
  cases hhead : (s.findEntriesForDest d').head? with
  | none => exact h.later hnow
  | some i =>
      cases pingEntry
      · exact h.later hnow
      · exact h.ping hnow hhead

/-! An entry is put into the table again. -/

theorem matching_addRTEntry (d : Destination) : (s.addRTEntry i).matching d =
    s.matching d ++ if (s.entry i).mDestination.destination = d then [i] else [] := by
  unfold Table.matching Table.addRTEntry
  rw [List.filter_append]
  by_cases hd : (s.entry i).mDestination.destination = d <;> simp [hd]

theorem Table.Tracks.addRTEntry (h : s.Tracks routes) (hmem : i ∈ s.matching d') :
    (s.addRTEntry i).Tracks routes where
  known := by
    intro j hj
    rcases List.mem_append.mp hj with hj | hj
    · exact h.known j hj
    · exact h.known j (List.mem_singleton.mp hj ▸ (mem_matching.mp hmem).1)
  mem_iff := by
    intro d route
    rw [h.mem_iff, matching_addRTEntry, (mem_matching.mp hmem).2]
    split_ifs with hd
    · subst hd
      rw [List.map_append, List.mem_append]
      refine (or_iff_left_of_imp fun hroute => ?_).symm
      rw [List.mem_singleton.mp hroute]
      exact List.mem_map_of_mem hmem
    · rw [List.append_nil]
      rfl

theorem Table.Refines.addRTEntry (h : s.Refines routes time d)
    (hlast : i ∈ s.matching d → (s.matching d).getLast? = some i) (hmem : i ∈ s.matching d') :
    (s.addRTEntry i).Refines routes time d := by
  by_cases hd : (s.entry i).mDestination.destination = d
  · have hi : i ∈ s.matching d := mem_matching.mpr ⟨(mem_matching.mp hmem).1, hd⟩
    have hmatching : (s.addRTEntry i).matching d = s.matching d ++ [i] := by rw [matching_addRTEntry, if_pos hd]
    refine ⟨?_, fun hpeer j hj => ?_, ?_⟩
    · rw [hmatching]
      refine List.pairwise_append.mpr ⟨h.order, List.pairwise_singleton .., fun j hj k hk => ?_⟩
      rw [List.mem_singleton.mp hk]
      exact h.newest (hlast hi) hj
    · rw [hmatching] at hj
      rcases List.mem_append.mp hj with hj | hj
      · exact h.past hpeer j hj
      · exact h.past hpeer j (List.mem_singleton.mp hj ▸ hi)
    · rw [hmatching, dedup_concat_of_getLast (hlast hi)]
      exact h.routes
  · have hmatching : (s.addRTEntry i).matching d = s.matching d := by
      rw [matching_addRTEntry, if_neg hd, List.append_nil]
    exact ⟨hmatching ▸ h.order, hmatching ▸ h.past, hmatching ▸ h.routes⟩

/-! An entry is new. -/

theorem newEntry_entry (hknown : i ≤ s.sIDGenerator) : (s.newEntry entry).entry i = s.entry i :=
  Function.update_of_ne (Nat.lt_succ_of_le hknown).ne ..

theorem newEntry_entry_self : (s.newEntry entry).entry (s.sIDGenerator + 1) = entry := Function.update_self ..

theorem Table.Tracks.not_mem (h : s.Tracks routes) : s.sIDGenerator + 1 ∉ s.matching d :=
  fun hmem => absurd (h.known _ (mem_matching.mp hmem).1) (Nat.not_succ_le_self _)

theorem matching_newEntry (h : s.Tracks routes) (d : Destination) : (s.newEntry entry).matching d =
    s.matching d ++ if entry.mDestination.destination = d then [s.sIDGenerator + 1] else [] := by
  unfold Table.newEntry
  rw [matching_addRTEntry]
  congr 1
  · refine List.filter_congr fun j hj => ?_
    have hkept : (s.newEntry entry).entry j = s.entry j := newEntry_entry (h.known j hj)
    exact congrArg (fun e : CRTEntry => decide (e.mDestination.destination = d)) hkept
  · have hself : (s.newEntry entry).entry (s.sIDGenerator + 1) = entry := newEntry_entry_self
    exact congrArg (fun e : CRTEntry => if e.mDestination.destination = d then [s.sIDGenerator + 1] else []) hself

theorem map_routeOf_newEntry (h : s.Tracks routes) {l : List ℕ} (hl : ∀ j ∈ l, j ∈ s.matching d) :
    l.map (s.newEntry entry).routeOf = l.map s.routeOf := by
  refine List.map_congr_left fun j hj => ?_
  unfold Table.routeOf
  rw [newEntry_entry (h.known j (mem_matching.mp (hl j hj)).1)]

/-- What is learned by a new entry. -/
def CRTEntry.route (entry : CRTEntry) : Route := ⟨entry.mNextHop, entry.mHops⟩

theorem Table.Tracks.newEntry (h : s.Tracks routes) (hnone : routes d' = []) : (s.newEntry entry).Tracks
    (routes.learn d' entry.mDestination.destination entry.route) where
  known := by
    intro j hj
    rcases List.mem_append.mp hj with hj | hj
    · exact (h.known j hj).trans (Nat.le_succ _)
    · exact (List.mem_singleton.mp hj).le
  mem_iff := by
    intro d route
    rw [Routes.learn, if_pos hnone, matching_newEntry h, List.map_append,
      map_routeOf_newEntry h (d := d) fun j hj => hj]
    by_cases hd : entry.mDestination.destination = d
    · rw [if_pos hd, hd, Function.update_self, List.mem_cons, h.mem_iff, List.mem_append, or_comm]
      simp [Table.routeOf, newEntry_entry_self, CRTEntry.route]
    · rw [Function.update_of_ne (Ne.symm hd), if_neg hd, List.map_nil, List.append_nil, h.mem_iff]

theorem Table.Refines.newEntry (ht : s.Tracks routes) (h : s.Refines routes time d)
    (hnow : d.1 = .PeerID → time < entry.mTimestamp) (hnone : routes d' = [])
    (hsame : d.1 ≠ .PeerID → entry.mDestination.destination = d → d' = d) :
    (s.newEntry entry).Refines (routes.learn d' entry.mDestination.destination entry.route) entry.mTimestamp d := by
  have hkept : ∀ j ∈ s.matching d, (s.newEntry entry).entry j = s.entry j :=
    fun j hj => newEntry_entry (ht.known j (mem_matching.mp hj).1)
  have horder : (s.matching d).Pairwise fun i j => i = j ∨
      d.1 = .PeerID ∧ ((s.newEntry entry).entry i).mTimestamp < ((s.newEntry entry).entry j).mTimestamp :=
    h.order.imp_of_mem fun {j k} hj hk hor => by rwa [hkept j hj, hkept k hk]
  have hpast : d.1 = .PeerID →
      ∀ j ∈ s.matching d, ((s.newEntry entry).entry j).mTimestamp < entry.mTimestamp := by
    intro hpeer j hj
    rw [hkept j hj]
    exact (h.past hpeer j hj).trans_lt (hnow hpeer)
  rw [Routes.learn, if_pos hnone]
  by_cases hd : entry.mDestination.destination = d
  · have hmatching : (s.newEntry entry).matching d = s.matching d ++ [s.sIDGenerator + 1] := by
      rw [matching_newEntry ht, if_pos hd]
    refine ⟨?_, fun hpeer j hj => ?_, ?_⟩
    · rw [hmatching]
      refine List.pairwise_append.mpr ⟨horder, List.pairwise_singleton .., fun j hj k hk => ?_⟩
      rw [List.mem_singleton.mp hk, newEntry_entry_self]
      by_cases hpeer : d.1 = .PeerID
      · exact .inr ⟨hpeer, hpast hpeer j hj⟩
      · rw [hsame hpeer hd, ht.empty_iff] at hnone
        rw [hnone] at hj
        cases hj
    · rw [hmatching] at hj
      rcases List.mem_append.mp hj with hj | hj
      · exact (hpast hpeer j hj).le
      · rw [List.mem_singleton.mp hj, newEntry_entry_self]
    · rw [hmatching, dedup_concat_of_not_mem ht.not_mem, List.map_append, List.reverse_append, hd,
        Function.update_self, map_routeOf_newEntry ht fun j hj => List.mem_dedup.mp hj, ← h.routes]
      simp [Table.routeOf, newEntry_entry_self, CRTEntry.route]
  · have hmatching : (s.newEntry entry).matching d = s.matching d := by
      rw [matching_newEntry ht, if_neg hd, List.append_nil]
    refine ⟨hmatching ▸ horder, fun hpeer j hj => ?_, ?_⟩
    · rw [hmatching] at hj
      exact (hpast hpeer j hj).le
    · rw [hmatching, Function.update_of_ne (Ne.symm hd), map_routeOf_newEntry ht fun j hj => List.mem_dedup.mp hj,
        h.routes]

/-! A next hop leaves, and the table is cleaned up. -/

theorem matching_removeEntriesWithNextHop (nextHop : CEndPoint) (d : Destination) :
    (s.removeEntriesWithNextHop nextHop).matching d =
      (s.matching d).filter fun i => !(s.routeOf i).nextHop.same nextHop := List.filter_comm ..

theorem Table.Tracks.removeEntriesWithNextHop (h : s.Tracks routes) (nextHop : CEndPoint) :
    (s.removeEntriesWithNextHop nextHop).Tracks (routes.forget nextHop) where
  known := fun j hj => h.known j (List.mem_of_mem_filter hj)
  mem_iff := by
    intro d route
    have hsame : (s.removeEntriesWithNextHop nextHop).routeOf = s.routeOf := rfl
    rw [Routes.forget, matching_removeEntriesWithNextHop, hsame, List.mem_filter, h.mem_iff, List.mem_map, List.mem_map]
    simp only [List.mem_filter]
    constructor
    · rintro ⟨⟨j, hj, rfl⟩, hstays⟩
      exact ⟨j, ⟨hj, hstays⟩, rfl⟩
    · rintro ⟨j, ⟨hj, hstays⟩, rfl⟩
      exact ⟨⟨j, hj, rfl⟩, hstays⟩

theorem Table.Refines.removeEntriesWithNextHop (h : s.Refines routes time d) (nextHop : CEndPoint) :
    (s.removeEntriesWithNextHop nextHop).Refines (routes.forget nextHop) time d where
  order := by
    rw [matching_removeEntriesWithNextHop]
    exact h.order.filter _
  past := by
    intro hpeer j hj
    rw [matching_removeEntriesWithNextHop] at hj
    exact h.past hpeer j (List.mem_of_mem_filter hj)
  routes := by
    rw [Routes.forget, h.routes, matching_removeEntriesWithNextHop, filter_dedup, List.filter_reverse, List.filter_map]
    rfl

/-- No entry is ever too old. -/
theorem cleanTable_eq (s : Table) (now : ℕ) : s.cleanTable now = s := by
  have hkept : ∀ i ∈ s.mEntries, (!decide ((if (s.entry i).mTimestamp = 0 then 1 else 0) > now ∧
      ¬1800 > (s.entry i).mTimestamp ∧ (now + 2 ^ 64 - (s.entry i).mTimestamp) % 2 ^ 64 > 1800)) = true := by
    intro i _
    rw [Bool.not_eq_true', decide_eq_false_iff_not]
    rintro ⟨hfuture, hold, -⟩
    split_ifs at hfuture <;> omega
  unfold Table.cleanTable
  rw [List.filter_eq_self.mpr hkept]

end Refinement

/-! ### Every call keeps them together -/

section Runs

variable {C : CCryptoFactory} {s s' : Table} {routes routes' : Routes} {time now : ℕ} {d : Destination}

/-- A call that is made at a time leaves the table and the routes together. -/
structure Keeps (s s' : Table) (routes routes' : Routes) (now : ℕ) : Prop where
  tracks : s'.Tracks routes'
  refines : ∀ d time, s.Refines routes time d → (d.1 = .PeerID → time < now) → s'.Refines routes' now d

/-- What a lookup that pings has found, if anything. -/
theorem findEntryForDest_cases (s : Table) (now : ℕ) (d : Destination) :
    s.matching d = [] ∧ s.findEntryForDest now d true = (s, none) ∨
      ∃ i, (s.findEntriesForDest d).head? = some i ∧ s.findEntryForDest now d true = (s.ping now i, some i) := by
  unfold Table.findEntryForDest
  cases hhead : (s.findEntriesForDest d).head? with
  | none => exact .inl ⟨findEntriesForDest_eq_nil.mp (List.head?_eq_none_iff.mp hhead), rfl⟩
  | some i => exact .inr ⟨i, rfl, rfl⟩

theorem keeps_found (ht : s.Tracks routes) (now : ℕ) (d : Destination) (pingEntry : Bool) :
    Keeps s (s.findEntryForDest now d pingEntry).1 routes routes now :=
  ⟨ht.findEntryForDest now d pingEntry, fun _ _ h hnow => h.findEntryForDest hnow d pingEntry⟩

theorem keeps_same (ht : s.Tracks routes) (now : ℕ) : Keeps s s routes routes now :=
  ⟨ht, fun _ _ h hnow => h.later hnow⟩

/-- The first entry for a key. Only a peer is put into the table under another key. -/
theorem keeps_newEntry (ht : s.Tracks routes) {entry : CRTEntry} {target : Destination} (hnone : s.matching d = [])
    (htarget : entry.mDestination.destination = target) (hsame : target.1 ≠ .PeerID → d = target) :
    Keeps s (s.newEntry entry) routes (routes.learn d target entry.route) entry.mTimestamp := by
  subst htarget
  refine ⟨ht.newEntry ((ht.empty_iff d).mpr hnone), fun d' time h hnow => ?_⟩
  exact h.newEntry ht hnow ((ht.empty_iff d).mpr hnone) fun hpeer hd => hd ▸ hsame (hd.symm ▸ hpeer)

/-- The entry that was found is put into the table again. -/
theorem keeps_again (ht : s.Tracks routes) {i : ℕ} (hhead : (s.findEntriesForDest d).head? = some i) :
    Keeps s ((s.ping now i).addRTEntry i) routes routes now := by
  have hmatching : ∀ d, (s.ping now i).matching d = s.matching d := matching_setEntry ⟨rfl, rfl, rfl⟩
  have hmem : i ∈ (s.ping now i).matching d := by
    rw [hmatching]
    exact head_mem hhead
  have hping : (s.ping now i).Tracks routes := ht.setEntry ⟨rfl, rfl, rfl⟩
  refine ⟨hping.addRTEntry hmem, fun d' time h hnow => ?_⟩
  refine (h.ping hnow hhead).addRTEntry (fun hmem' => ?_) hmem
  have hd : d' = d := (mem_matching.mp hmem').2.symm.trans (mem_matching.mp hmem).2
  rw [hd] at h ⊢
  rw [hmatching, ← h.head, hhead]

/-- The entry that was found changes, but neither where it leads nor when it was used. -/
theorem keeps_update (ht : s.Tracks routes) {i : ℕ} (hhead : (s.findEntriesForDest d).head? = some i)
    {entry : CRTEntry} (hsame : SameRoute ((s.ping now i).entry i) entry)
    (htime : entry.mTimestamp = ((s.ping now i).entry i).mTimestamp) :
    Keeps s ((s.ping now i).setEntry i entry) routes routes now := by
  have hping : (s.ping now i).Tracks routes := ht.setEntry ⟨rfl, rfl, rfl⟩
  refine ⟨hping.setEntry hsame, fun d' time h hnow => ?_⟩
  exact (h.ping hnow hhead).setEntry hsame (fun _ => le_rfl) (.inl htime)

theorem learn_of_found (ht : s.Tracks routes) {i : ℕ} {target : Destination} {route : Route}
    (hhead : (s.findEntriesForDest d).head? = some i) : routes.learn d target route = routes := by
  refine if_neg fun hnone => ?_
  have hmem := head_mem hhead
  rw [(ht.empty_iff d).mp hnone] at hmem
  cases hmem

theorem ofSource_destination {address : Bytes} {type : eEndpointType} {target : CEndPoint}
    (htarget : CEndPoint.ofSource address type = some target) : target.destination = (type, address) := by
  cases type <;> cases htarget <;> rfl

theorem keeps_ping (ht : s.Tracks routes) {i : ℕ} (hhead : (s.findEntriesForDest d).head? = some i) :
    Keeps s (s.ping now i) routes routes now :=
  ⟨ht.setEntry ⟨rfl, rfl, rfl⟩, fun _ _ h hnow => h.ping hnow hhead⟩

theorem keeps_updateEntry (ht : s.Tracks routes) {i : ℕ} (hhead : (s.findEntriesForDest d).head? = some i)
    (msg : CNetMsg) (immediateSource : CEndPoint) :
    Keeps s ((s.ping now i).updateEntry msg immediateSource i) routes routes now := by
  unfold Table.updateEntry
  split_ifs
  · exact keeps_again ht hhead
  · exact keeps_update ht hhead ⟨rfl, rfl, rfl⟩ rfl
  · exact keeps_ping ht hhead

theorem updateRT_keeps (ht : s.Tracks routes) {msg : Option CNetMsg} {immediateSource : Option CEndPoint} {new : Bool}
    (hstep : s.updateRT C now msg immediateSource = some (s', new)) :
    Keeps s s' routes (routes.step C (.updateRT msg immediateSource)) now := by
  unfold Table.updateRT at hstep
  cases immediateSource with
  | none =>
      cases hstep
      cases msg <;> exact keeps_same ht now
  | some immediateSource =>
      cases msg with
      | none =>
          cases hstep
          exact keeps_same ht now
      | some msg =>
          dsimp only at hstep
          unfold Routes.step
          dsimp only
          by_cases hsource : msg.mSource = []
          · rw [if_pos hsource] at hstep ⊢
            cases hstep
            exact keeps_same ht now
          · rw [if_neg hsource] at hstep ⊢
            cases hpeerID : msg.peerID C with
            | none =>
                rw [hpeerID] at hstep
                cases hstep
                exact keeps_same ht now
            | some peerID =>
                rw [hpeerID] at hstep
                dsimp only at hstep
                cases htarget : CEndPoint.ofSource (msg.target peerID) msg.mSourceType with
                | none =>
                    rw [htarget] at hstep
                    cases hstep
                | some target =>
                    rw [htarget] at hstep
                    dsimp only [Option.elim_some] at hstep ⊢
                    rcases findEntryForDest_cases s now (msg.mSourceType, msg.mSource) with
                      ⟨hnone, hfound⟩ | ⟨i, hhead, hfound⟩
                    · rw [hfound] at hstep
                      cases hstep
                      refine keeps_newEntry ht hnone (ofSource_destination htarget) fun hpeer => ?_
                      have hempty : peerID = [] := by
                        rw [CNetMsg.peerID, if_neg hpeer] at hpeerID
                        exact (Option.some.inj hpeerID).symm
                      rw [CNetMsg.target, if_pos hempty]
                    · rw [hfound] at hstep
                      cases hstep
                      rw [learn_of_found ht hhead]
                      exact keeps_updateEntry ht hhead msg immediateSource

theorem updateRTFor_keeps (ht : s.Tracks routes) (destination immediatePeer : Option CEndPoint) (hopCount : ℕ)
    (knowledgeSource : eRouteKowledgeSource) :
    Keeps s (s.updateRTFor now destination immediatePeer hopCount knowledgeSource).1 routes
      (routes.step C (.updateRTFor destination immediatePeer hopCount knowledgeSource)) now := by
  unfold Table.updateRTFor Routes.step
  cases destination with
  | none => exact keeps_same ht now
  | some destination =>
      cases immediatePeer with
      | none => exact keeps_same ht now
      | some immediatePeer =>
          dsimp only
          rcases findEntryForDest_cases s now destination.destination with ⟨hnone, hfound⟩ | ⟨i, hhead, hfound⟩
          · rw [hfound]
            exact keeps_newEntry ht hnone rfl fun _ => rfl
          · rw [hfound, learn_of_found ht hhead]
            dsimp only
            split_ifs
            · exact keeps_again ht hhead
            · exact keeps_update ht hhead ⟨rfl, rfl, rfl⟩ (by simp [Table.ping, Table.setEntry])
            · exact keeps_ping ht hhead

/-- A call, whatever the clock says. -/
theorem step_keeps (ht : s.Tracks routes) {call : Call} (hstep : s.step C (now, call) = some s') :
    Keeps s s' routes (routes.step C call) now := by
  cases call with
  | updateRT msg immediateSource =>
      obtain ⟨⟨after, new⟩, hresult, rfl⟩ := Option.map_eq_some_iff.mp hstep
      exact updateRT_keeps ht hresult
  | updateRTFor destination immediatePeer hopCount knowledgeSource =>
      cases hstep
      exact updateRTFor_keeps ht destination immediatePeer hopCount knowledgeSource
  | removeEntriesWithNextHop nextHop =>
      cases hstep
      cases nextHop with
      | none => exact keeps_same ht now
      | some nextHop =>
          refine ⟨ht.removeEntriesWithNextHop nextHop, fun _ _ h hnow => ?_⟩
          exact (h.later hnow).removeEntriesWithNextHop nextHop
  | findEntryForDest d pingEntry =>
      cases hstep
      exact keeps_found ht now d pingEntry
  | cleanTable =>
      cases hstep
      rw [cleanTable_eq]
      exact keeps_same ht now

/-- From calls to calls, as long as the clock goes on where the destination is a peer. -/
theorem run_refines {calls : List (ℕ × Call)} (ht : s.Tracks routes) (h : s.Refines routes time d)
    (hclock : d.1 = .PeerID → (time :: calls.map Prod.fst).Pairwise (· < ·))
    (hrun : calls.foldlM (Table.step C) s = some s') :
    ∃ time, s'.Refines ((calls.map Prod.snd).foldl (Routes.step C) routes) time d := by
  induction calls generalizing s routes time with
  | nil =>
      cases hrun
      exact ⟨time, h⟩
  | cons call calls ih =>
      rw [List.foldlM_cons] at hrun
      obtain ⟨s₁, hstep, hrun⟩ := Option.bind_eq_some_iff.mp hrun
      have hkeeps := step_keeps ht hstep
      refine ih hkeeps.tracks (hkeeps.refines d time h fun hpeer => ?_) (fun hpeer => ?_) hrun
      · exact (List.pairwise_cons.mp (hclock hpeer)).1 _ List.mem_cons_self
      · exact (List.pairwise_cons.mp (hclock hpeer)).2

theorem init_tracks (entry : CRTEntry) : (Table.init entry).Tracks fun _ => [] where
  known := fun _ hi => absurd hi List.not_mem_nil
  mem_iff := fun _ _ => Iff.rfl

theorem init_refines (entry : CRTEntry) (d : Destination) : (Table.init entry).Refines (fun _ => []) 0 d where
  order := List.Pairwise.nil
  past := fun _ _ hi => absurd hi List.not_mem_nil
  routes := rfl

/-- What a lookup answers is the first of the routes, after any calls. For a peer that takes a clock that goes on from
call to call. -/
theorem findEntryForDest_run (entry : CRTEntry) {calls : List (ℕ × Call)}
    (hclock : d.1 = .PeerID → (0 :: calls.map Prod.fst).Pairwise (· < ·))
    (hrun : calls.foldlM (Table.step C) (Table.init entry) = some s) (now : ℕ) (pingEntry : Bool) :
    (s.findEntryForDest now d pingEntry).2.map s.routeOf =
      ((calls.map Prod.snd).foldl (Routes.step C) (fun _ => []) d).head? := by
  obtain ⟨time, h⟩ := run_refines (init_tracks entry) (init_refines entry d) hclock hrun
  rw [← h.head_route]
  unfold Table.findEntryForDest
  cases (s.findEntriesForDest d).head? <;> rfl

end Runs

/-- A peer whose datagrams come over two conversations is reached over the second, which is longer. -/
theorem findEntryForDest_peer :
    let C : CCryptoFactory := ⟨fun _ _ _ => true, fun pubKey => some (0 :: pubKey)⟩
    let first : CEndPoint := ⟨[1], .WebSockConversation, 0, []⟩
    let second : CEndPoint := ⟨[2], .QUICConversation, 0, []⟩
    let datagram : ℕ → Option CNetMsg := fun hops => some ⟨List.replicate 32 7, .PeerID, hops, 1, [], []⟩
    let calls : List (ℕ × Call) := [(1, .updateRT (datagram 0) (some first)),
      (2, .updateRT (datagram 5) (some second)), (3, .findEntryForDest (.PeerID, 0 :: List.replicate 32 7) true)]
    ∃ s, calls.foldlM (Table.step C) (Table.init ⟨0, 0, [], first, first, 0, .manual⟩) = some s ∧
      (s.findEntryForDest 4 (.PeerID, 0 :: List.replicate 32 7) false).2.map s.routeOf = some ⟨second, 6⟩ := by
  intro C first second datagram calls
  have hanswer : ∀ s, calls.foldlM (Table.step C) (Table.init ⟨0, 0, [], first, first, 0, .manual⟩) = some s →
      (s.findEntryForDest 4 (.PeerID, 0 :: List.replicate 32 7) false).2.map s.routeOf = some ⟨second, 6⟩ :=
    fun s hrun => (findEntryForDest_run _ (fun _ => by decide) hrun 4 false).trans rfl
  exact ⟨_, rfl, hanswer _ rfl⟩

end CDataRouter

end Gridnet
