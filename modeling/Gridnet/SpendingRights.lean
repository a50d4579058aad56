import Gridnet.DynamicAccess
import Gridnet.ListUpdate
import Gridnet.PollGroups

/-! Who may spend. `getEffectiveRights` asks the polls one after another; what they decided is kept
beside its variables as a tally of polls won and lost, and the rights at the end are read off the
tally. -/

namespace Gridnet

namespace CPollFileElem

variable (pollExt : CPollFileElem) (sdm : Option CStateDomainManager)

/-- The section of a poll dereferences a null pointer: the spendings poll is not there, or the poll
triggers as a member of a group and does not know its file element. -/
def breaksAt (id : eSystemPollID) : Bool :=
  match pollExt.getPollWithLocalID id.toID with
  | none => id = .spendingsAcessRightsPoll
  | some poll => poll.decides sdm && poll.mFlags.getIsMemberOfExclusiveGroup && !poll.mFileElem

/-- The poll triggers and its section takes the entity for the winner. -/
def elects (best : BestCandidate) (ids : List eSystemPollID) (entityID : Bytes)
    (id : eSystemPollID) : Bool :=
  pollExt.decided sdm id && entityID = (pollExt.leader sdm best ids id).id

/-- The poll is active and its section turns the entity down. -/
def turnsDown (best : BestCandidate) (ids : List eSystemPollID) (entityID : Bytes)
    (id : eSystemPollID) : Bool :=
  pollExt.active id && !pollExt.elects sdm best ids entityID id

end CPollFileElem

namespace RightsState

/-- What the section of one poll leaves behind. -/
def settle (st : RightsState) (memory : Memory) (entityID : Bytes) (id : eSystemPollID)
    (elected turnedDown : Bool) : RightsState :=
  if elected then st.elect memory entityID id
  else if turnedDown then st.refuse id
  else st

@[simp] theorem settle_best (st : RightsState) (memory : Memory) (entityID : Bytes)
    (id : eSystemPollID) (elected turnedDown : Bool) :
    (st.settle memory entityID id elected turnedDown).best = st.best := by
  unfold settle elect
  cases st.desc.getACEforEntity entityID with
  | none => split_ifs <;> rfl
  | some i => split_ifs <;> rfl

@[simp] theorem settle_mPollExt (st : RightsState) (memory : Memory) (entityID : Bytes)
    (id : eSystemPollID) (elected turnedDown : Bool) :
    (st.settle memory entityID id elected turnedDown).desc.mPollExt = st.desc.mPollExt := by
  unfold settle elect
  cases st.desc.getACEforEntity entityID with
  | none => split_ifs <;> rfl
  | some i => split_ifs <;> rfl

theorem checkPoll_eq {st : RightsState} {pollExt : CPollFileElem} (hext : st.desc.mPollExt = some pollExt)
    (sdm : Option CStateDomainManager) (memory : Memory) {accessToken : CAccessToken}
    {id : eSystemPollID} (hasked : accessToken.mReqPerm.requests id = true) :
    checkPoll sdm memory accessToken st id =
      if pollExt.breaksAt sdm id then none
      else some ({ st with best := pollExt.leader sdm st.best [id] id }.settle memory
        accessToken.mEntityID id (pollExt.elects sdm st.best [id] accessToken.mEntityID id)
        (pollExt.turnsDown sdm st.best [id] accessToken.mEntityID id)) := by
  have hleader : pollExt.leader sdm st.best [id] id =
      (pollExt.candidates id).foldl (BestScan.keepBest BestCandidate.points (CVoter.standing sdm))
        st.best := by
    simp [CPollFileElem.leader, CPollFileElem.rivals]
  unfold checkPoll CPollFileElem.breaksAt CPollFileElem.turnsDown CPollFileElem.elects
  rw [hext, hleader]
  unfold CPollFileElem.candidates CPollFileElem.decided CPollFileElem.active
  dsimp only
  cases pollExt.getPollWithLocalID id.toID with
  | none => simp [hasked, settle]
  | some poll =>
      cases hactive : poll.getFlags.getIsActive with
      | false => simp [hasked, hactive, CPollElem.decides, settle]
      | true =>
          have hdecides : poll.decides sdm = (poll.checkTrigger sdm st.best).1 := by
            rw [CPollElem.decides, hactive, Bool.true_and]
            exact poll.checkTrigger_fst sdm {} st.best
          have hwinner := poll.checkTrigger_snd sdm st.best
          cases htrigger : (poll.checkTrigger sdm st.best).1 with
          | false => simp [hasked, hactive, hdecides, htrigger, hwinner, settle]
          | true =>
              have hsame : { st.desc with mPollExt := some pollExt } = st.desc := by rw [← hext]
              cases hmember : poll.mFlags.getIsMemberOfExclusiveGroup with
              | false =>
                  simp [hasked, hactive, hdecides, htrigger, hwinner, settle,
                    CPollFileElem.firePostTriggerActions, hmember, hsame]
                  split_ifs <;> rfl
              | true =>
                  cases hfile : poll.mFileElem with
                  | false =>
                      simp [hasked, hactive, hdecides, htrigger,
                        CPollFileElem.firePostTriggerActions, hmember, hfile]
                  | true =>
                      simp [hasked, hactive, hdecides, htrigger, hwinner, settle,
                        CPollFileElem.firePostTriggerActions, hmember, hfile,
                        CPollFileElem.deactivateGroup_eq, hsame]
                      split_ifs <;> rfl

/-- The polls an entity won and lost so far, and whether the new entry made on the way, where the
descriptor stores none, carries the assets. -/
structure Tally where
  won : eSystemPollID → Bool := fun _ => false
  lost : eSystemPollID → Bool := fun _ => false
  assets : Bool := true

/-- Whether the new entry carries the assets after the poll was won; winning the ownership makes no
entry. -/
def freshAssets (assets : Bool) : eSystemPollID → Bool
  | .spendingsAcessRightsPoll => true
  | .writeAccessRightsPoll => false
  | .ownershipChangeAccessRightsPoll => assets
  | .executeAccessRightsPoll => false
  | .removalAccessRightsPoll => true

/-- One more poll asked. -/
def Tally.add (t : Tally) (id : eSystemPollID) (elected turnedDown : Bool) : Tally :=
  if elected then
    { t with won := Function.update t.won id true, assets := freshAssets t.assets id }
  else if turnedDown then { t with lost := Function.update t.lost id true }
  else t

/-- The stored entry of a caller after the polls asked so far. -/
def storedEntry (t : Tally) (entry : CAccessEntry) : CAccessEntry :=
  if t.won .removalAccessRightsPoll then (entry.grantAssets true).grantRemoval true
  else entry.grantAssets true

/-- The variables of `getEffectiveRights`, begun from `desc`, agree with a tally. -/
structure Tracks (desc : CSecDescriptor) (entityID : Bytes) (t : Tally) (st : RightsState) :
    Prop where
  pollExt : st.desc.mPollExt = desc.mPollExt
  implicitOwner : st.desc.mImplicitOwner = desc.mImplicitOwner
  owner : st.desc.mOwner =
    if t.won .ownershipChangeAccessRightsPoll then entityID else desc.mOwner
  forceAbort : st.forceAbort = t.lost
  spending : st.toRet.mSpending = false
  stored : ∀ i, desc.getACEforEntity entityID = some i →
    st.ace = .stored i ∧ st.desc.mAccessEntries = desc.mAccessEntries.modify i (storedEntry t)
  fresh : desc.getACEforEntity entityID = none →
    st.desc.mAccessEntries = desc.mAccessEntries ∧
      ∃ entry, st.ace = .fresh entry ∧ entry.mFlags.mAssets = t.assets

theorem getACEforEntity_modify (desc : CSecDescriptor) (sdID : Bytes) (i : ℕ)
    {f : CAccessEntry → CAccessEntry} (hid : ∀ entry, (f entry).mSDID = entry.mSDID) :
    ({ desc with mAccessEntries := desc.mAccessEntries.modify i f } : CSecDescriptor).getACEforEntity
      sdID = desc.getACEforEntity sdID := by
  have hmap := ListUpdate.map_modify (l := desc.mAccessEntries) (i := i) (h := id) hid
  rw [List.modify_id] at hmap
  have hfind : ∀ l : List CAccessEntry, (l.findIdx? fun entry => entry.mSDID = sdID) =
      (l.map CAccessEntry.mSDID).findIdx? fun e => e = sdID := by
    intro l
    rw [List.findIdx?_map]
    rfl
  show (List.findIdx? _ _) = List.findIdx? _ _
  rw [hfind, hfind, hmap]

@[simp] theorem storedEntry_mSDID (t : Tally) (entry : CAccessEntry) :
    (storedEntry t entry).mSDID = entry.mSDID := by
  unfold storedEntry
  split_ifs <;> rfl

/-- Winning one more poll, in the entry the descriptor stores. -/
theorem grantStored_storedEntry (t : Tally) {id : eSystemPollID}
    (hid : id ≠ .ownershipChangeAccessRightsPoll) (turnedDown : Bool) :
    grantStored id ∘ storedEntry t = storedEntry (t.add id true turnedDown) := by
  funext entry
  cases hremoval : t.won .removalAccessRightsPoll <;> cases id <;>
    first
    | exact absurd rfl hid
    | simp [storedEntry, Tally.add, hremoval, grantStored, Function.update] <;> rfl

theorem storedEntry_add_owner (t : Tally) (turnedDown : Bool) :
    storedEntry (t.add .ownershipChangeAccessRightsPoll true turnedDown) = storedEntry t := by
  funext entry
  simp [storedEntry, Tally.add]

section Tracks

variable {desc : CSecDescriptor} {entityID : Bytes} {t : Tally} {st : RightsState}

/-- The entry the descriptor finds for the caller is the one it found at the beginning. -/
theorem Tracks.getACEforEntity_eq (htracks : Tracks desc entityID t st) :
    st.desc.getACEforEntity entityID = desc.getACEforEntity entityID := by
  cases hstored : desc.getACEforEntity entityID with
  | some i =>
      have hsame := getACEforEntity_modify desc entityID i (storedEntry_mSDID t)
      rw [← hstored, ← hsame]
      show List.findIdx? _ _ = List.findIdx? _ _
      rw [(htracks.stored i hstored).2]
  | none =>
      rw [← hstored]
      show List.findIdx? _ _ = List.findIdx? _ _
      rw [(htracks.fresh hstored).1]

theorem Tracks.withBest (htracks : Tracks desc entityID t st) (best : BestCandidate) :
    Tracks desc entityID t { st with best := best } :=
  ⟨htracks.pollExt, htracks.implicitOwner, htracks.owner, htracks.forceAbort, htracks.spending,
    htracks.stored, htracks.fresh⟩

theorem Tracks.refuse (htracks : Tracks desc entityID t st) (id : eSystemPollID) :
    Tracks desc entityID (t.add id false true) (st.refuse id) where
  pollExt := htracks.pollExt
  implicitOwner := htracks.implicitOwner
  owner := htracks.owner
  forceAbort :=
    congrArg (fun abort : eSystemPollID → Bool => Function.update abort id true) htracks.forceAbort
  spending := by cases id <;> first | rfl | exact htracks.spending
  stored := htracks.stored
  fresh := htracks.fresh

theorem Tracks.elect_owner (htracks : Tracks desc entityID t st) (memory : Memory)
    (turnedDown : Bool) (hbest : st.best.id = entityID) :
    Tracks desc entityID (t.add .ownershipChangeAccessRightsPoll true turnedDown)
      (st.elect memory entityID .ownershipChangeAccessRightsPoll) where
  pollExt := htracks.pollExt
  implicitOwner := htracks.implicitOwner
  owner := by simp [elect, Tally.add, hbest]
  forceAbort := htracks.forceAbort
  spending := htracks.spending
  stored := by
    intro i hi
    rw [storedEntry_add_owner]
    exact htracks.stored i hi
  fresh := htracks.fresh

theorem Tracks.elect (htracks : Tracks desc entityID t st) (memory : Memory) {id : eSystemPollID}
    (hid : id ≠ .ownershipChangeAccessRightsPoll) (turnedDown : Bool) :
    Tracks desc entityID (t.add id true turnedDown) (st.elect memory entityID id) := by
  have howner : (t.add id true turnedDown).won .ownershipChangeAccessRightsPoll =
      t.won .ownershipChangeAccessRightsPoll := Function.update_of_ne (Ne.symm hid) _ _
  unfold RightsState.elect
  rw [if_neg hid, htracks.getACEforEntity_eq]
  cases hstored : desc.getACEforEntity entityID with
  | some i =>
      obtain ⟨hace, hentries⟩ := htracks.stored i hstored
      refine ⟨htracks.pollExt, htracks.implicitOwner, ?_, htracks.forceAbort, htracks.spending, ?_, ?_⟩
      · rw [howner]
        exact htracks.owner
      · intro j hj
        obtain rfl : i = j := Option.some_inj.mp (hstored.symm.trans hj)
        refine ⟨rfl, ?_⟩
        show st.desc.mAccessEntries.modify i (grantStored id) = _
        rw [hentries, List.modify_modify_eq, grantStored_storedEntry t hid]
      · exact fun hnone => absurd (hstored.symm.trans hnone) (Option.some_ne_none i)
  | none =>
      refine ⟨htracks.pollExt, htracks.implicitOwner, ?_, htracks.forceAbort, htracks.spending, ?_, ?_⟩
      · rw [howner]
        exact htracks.owner
      · exact fun i hi => absurd (hstored.symm.trans hi) (Option.some_ne_none i).symm
      · intro _
        refine ⟨(htracks.fresh hstored).1, _, rfl, ?_⟩
        cases id <;> first | exact absurd rfl hid | rfl

/-- One more poll asked. -/
theorem Tracks.settle (htracks : Tracks desc entityID t st) (memory : Memory) (id : eSystemPollID)
    {elected : Bool} (turnedDown : Bool) (hbest : elected = true → st.best.id = entityID) :
    Tracks desc entityID (t.add id elected turnedDown)
      (st.settle memory entityID id elected turnedDown) := by
  cases elected with
  | true =>
      by_cases hid : id = .ownershipChangeAccessRightsPoll
      · subst hid
        exact htracks.elect_owner memory turnedDown (hbest rfl)
      · exact htracks.elect memory hid turnedDown
  | false =>
      cases turnedDown with
      | true => exact htracks.refuse id
      | false => exact htracks

end Tracks

/-- The tally of the polls `ids` asked in turn. -/
def tally (pollExt : CPollFileElem) (sdm : Option CStateDomainManager) (entityID : Bytes)
    (best : BestCandidate) (ids : List eSystemPollID) (t : Tally) : Tally :=
  ids.foldl (fun t id =>
    t.add id (pollExt.elects sdm best ids entityID id) (pollExt.turnsDown sdm best ids entityID id)) t

theorem leader_cons (pollExt : CPollFileElem) (sdm : Option CStateDomainManager)
    (best : BestCandidate) {id id' : eSystemPollID} (hne : id ≠ id') (ids : List eSystemPollID) :
    pollExt.leader sdm best (id :: ids) id' =
      pollExt.leader sdm (pollExt.leader sdm best [id] id) ids id' := by
  simp [CPollFileElem.leader, CPollFileElem.rivals, hne]

theorem leader_cons_self (pollExt : CPollFileElem) (sdm : Option CStateDomainManager)
    (best : BestCandidate) (id : eSystemPollID) (ids : List eSystemPollID) :
    pollExt.leader sdm best (id :: ids) id = pollExt.leader sdm best [id] id := by
  simp [CPollFileElem.leader, CPollFileElem.rivals]

theorem tally_cons (pollExt : CPollFileElem) (sdm : Option CStateDomainManager) (entityID : Bytes)
    (best : BestCandidate) {id : eSystemPollID} {ids : List eSystemPollID} (hfresh : id ∉ ids)
    (t : Tally) :
    tally pollExt sdm entityID best (id :: ids) t =
      tally pollExt sdm entityID (pollExt.leader sdm best [id] id) ids
        (t.add id (pollExt.elects sdm best [id] entityID id)
          (pollExt.turnsDown sdm best [id] entityID id)) := by
  unfold tally
  rw [List.foldl_cons]
  have hhead : pollExt.elects sdm best (id :: ids) entityID id = pollExt.elects sdm best [id] entityID id := by
    rw [CPollFileElem.elects, CPollFileElem.elects, leader_cons_self]
  rw [CPollFileElem.turnsDown, CPollFileElem.turnsDown, hhead]
  refine List.foldl_ext _ _ _ fun t id' hid' => ?_
  have hne : id ≠ id' := fun hsame => hfresh (hsame ▸ hid')
  rw [CPollFileElem.turnsDown, CPollFileElem.turnsDown, CPollFileElem.elects, CPollFileElem.elects,
    leader_cons pollExt sdm best hne]

/-- A section that dereferences a null pointer ends the run. -/
theorem foldlM_checkPoll_none {st : RightsState} {pollExt : CPollFileElem}
    (hext : st.desc.mPollExt = some pollExt) (sdm : Option CStateDomainManager) (memory : Memory)
    {accessToken : CAccessToken} {ids : List eSystemPollID}
    (hasked : ∀ id ∈ ids, accessToken.mReqPerm.requests id = true)
    (hbreaks : ∃ id ∈ ids, pollExt.breaksAt sdm id = true) :
    ids.foldlM (checkPoll sdm memory accessToken) st = none := by
  induction ids generalizing st with
  | nil => simp at hbreaks
  | cons id ids ih =>
      obtain ⟨hid, hids⟩ := List.forall_mem_cons.mp hasked
      rw [List.foldlM_cons, checkPoll_eq hext sdm memory hid]
      split_ifs with hhere
      · rfl
      · have hrest : ∃ id ∈ ids, pollExt.breaksAt sdm id = true := by
          obtain ⟨id', hid', hbreak⟩ := hbreaks
          rcases List.mem_cons.mp hid' with rfl | hlater
          · exact absurd hbreak hhere
          · exact ⟨id', hlater, hbreak⟩
        refine ih ?_ hids hrest
        rw [settle_mPollExt]
        exact hext

/-- Otherwise the run ends in the tally of all the polls. -/
theorem foldlM_checkPoll_tracks {desc : CSecDescriptor} {t : Tally} {st : RightsState}
    {pollExt : CPollFileElem} (hext : desc.mPollExt = some pollExt) (sdm : Option CStateDomainManager)
    (memory : Memory) {accessToken : CAccessToken} {ids : List eSystemPollID} (hids : ids.Nodup)
    (hasked : ∀ id ∈ ids, accessToken.mReqPerm.requests id = true)
    (hsound : ∀ id ∈ ids, pollExt.breaksAt sdm id = false)
    (htracks : Tracks desc accessToken.mEntityID t st) :
    ∃ st', ids.foldlM (checkPoll sdm memory accessToken) st = some st' ∧
      Tracks desc accessToken.mEntityID (tally pollExt sdm accessToken.mEntityID st.best ids t) st' := by
  induction ids generalizing st t with
  | nil => exact ⟨st, rfl, htracks⟩
  | cons id ids ih =>
      obtain ⟨hfresh, hids⟩ := List.nodup_cons.mp hids
      obtain ⟨hid, hasked⟩ := List.forall_mem_cons.mp hasked
      obtain ⟨hhere, hsound⟩ := List.forall_mem_cons.mp hsound
      have hbest : pollExt.elects sdm st.best [id] accessToken.mEntityID id = true →
          (pollExt.leader sdm st.best [id] id).id = accessToken.mEntityID := by
        intro helects
        exact (of_decide_eq_true (Bool.and_eq_true_iff.mp helects).2).symm
      have hsettled := (htracks.withBest (pollExt.leader sdm st.best [id] id)).settle memory id
        (pollExt.turnsDown sdm st.best [id] accessToken.mEntityID id) hbest
      obtain ⟨st', hrun, hend⟩ := ih hids hasked hsound hsettled
      refine ⟨st', ?_, ?_⟩
      · rw [List.foldlM_cons, checkPoll_eq (htracks.pollExt.trans hext) sdm memory hid, hhere]
        exact hrun
      · rw [tally_cons pollExt sdm _ _ hfresh]
        rw [settle_best] at hend
        exact hend

theorem tally_foldl_won (el td : eSystemPollID → Bool) (ids : List eSystemPollID) (t : Tally)
    (id : eSystemPollID) :
    (ids.foldl (fun t id => t.add id (el id) (td id)) t).won id =
      (t.won id || decide (id ∈ ids) && el id) := by
  induction ids generalizing t with
  | nil => simp
  | cons id' ids ih =>
      rw [List.foldl_cons, ih]
      by_cases hid : id = id'
      · subst hid
        cases hel : el id <;> cases td id <;> simp [Tally.add]
      · cases el id' <;> cases td id' <;> simp [Tally.add, hid]

theorem tally_foldl_lost (el td : eSystemPollID → Bool) (ids : List eSystemPollID) (t : Tally)
    (id : eSystemPollID) :
    (ids.foldl (fun t id => t.add id (el id) (td id)) t).lost id =
      (t.lost id || decide (id ∈ ids) && (td id && !el id)) := by
  induction ids generalizing t with
  | nil => simp
  | cons id' ids ih =>
      rw [List.foldl_cons, ih]
      by_cases hid : id = id'
      · subst hid
        cases hel : el id <;> cases htd : td id <;> simp [Tally.add]
      · cases el id' <;> cases td id' <;> simp [Tally.add, hid]

theorem tally_foldl_assets (el td : eSystemPollID → Bool) (ids : List eSystemPollID) (t : Tally) :
    (ids.foldl (fun t id => t.add id (el id) (td id)) t).assets =
      ids.foldl (fun assets id => if el id then freshAssets assets id else assets) t.assets := by
  induction ids generalizing t with
  | nil => rfl
  | cons id ids ih =>
      rw [List.foldl_cons, List.foldl_cons, ih]
      cases el id <;> cases td id <;> rfl

/-- A new entry ends without the assets when the last poll that made it was for writing or
execution. -/
theorem foldl_freshAssets (w p : eSystemPollID → Bool) :
    (CSecDescriptor.systemPolls.filter p).foldl
        (fun assets id => if w id then freshAssets assets id else assets) true =
      (p .removalAccessRightsPoll && w .removalAccessRightsPoll ||
        !(p .writeAccessRightsPoll && w .writeAccessRightsPoll ||
          p .executeAccessRightsPoll && w .executeAccessRightsPoll)) := by
  rw [List.foldl_filter]
  have hboth : (fun assets id => if p id = true then
        (if w id = true then freshAssets assets id else assets) else assets) =
      fun assets id => if (p id && w id) = true then freshAssets assets id else assets := by
    funext assets id
    cases p id <;> rfl
  rw [hboth]
  simp only [CSecDescriptor.systemPolls, List.foldl_cons, List.foldl_nil, freshAssets]
  generalize (p .removalAccessRightsPoll && w .removalAccessRightsPoll) = removal
  generalize (p .writeAccessRightsPoll && w .writeAccessRightsPoll) = write
  generalize (p .executeAccessRightsPoll && w .executeAccessRightsPoll) = execute
  cases removal <;> cases write <;> cases execute <;> simp

end RightsState

namespace CSecDescriptor

/-- The polls the sections of `getEffectiveRights` ask: those whose permission is requested. -/
def askedPolls (accessToken : CAccessToken) : List eSystemPollID :=
  systemPolls.filter accessToken.mReqPerm.requests

/-- The caller requests the permission of the poll and is taken for its winner. -/
def wins (desc : CSecDescriptor) (accessToken : CAccessToken) (sdm : Option CStateDomainManager)
    (id : eSystemPollID) : Bool :=
  accessToken.mReqPerm.requests id && desc.mPollExt.any fun pollExt =>
    pollExt.elects sdm {} (askedPolls accessToken) accessToken.mEntityID id

/-- The caller requests the permission of the poll and is turned down. -/
def loses (desc : CSecDescriptor) (accessToken : CAccessToken) (sdm : Option CStateDomainManager)
    (id : eSystemPollID) : Bool :=
  accessToken.mReqPerm.requests id && desc.mPollExt.any fun pollExt =>
    pollExt.turnsDown sdm {} (askedPolls accessToken) accessToken.mEntityID id

/-- The evaluation dereferences a null pointer. -/
def breaks (desc : CSecDescriptor) (accessToken : CAccessToken) (sdm : Option CStateDomainManager) :
    Bool :=
  desc.mPollExt.any fun pollExt => (askedPolls accessToken).any fun id => pollExt.breaksAt sdm id

/-- The tally of all the polls asked. -/
def finalTally (desc : CSecDescriptor) (accessToken : CAccessToken)
    (sdm : Option CStateDomainManager) : RightsState.Tally :=
  match desc.mPollExt with
  | none => {}
  | some pollExt =>
      RightsState.tally pollExt sdm accessToken.mEntityID {} (askedPolls accessToken) {}

variable (desc : CSecDescriptor) (accessToken : CAccessToken) (sdm : Option CStateDomainManager)

theorem mem_askedPolls (id : eSystemPollID) :
    id ∈ askedPolls accessToken ↔ accessToken.mReqPerm.requests id = true := by
  simp [askedPolls, mem_systemPolls]

theorem finalTally_won (id : eSystemPollID) :
    (desc.finalTally accessToken sdm).won id = desc.wins accessToken sdm id := by
  unfold finalTally wins
  cases desc.mPollExt with
  | none => simp
  | some pollExt =>
      dsimp only [RightsState.tally]
      rw [RightsState.tally_foldl_won]
      simp [mem_askedPolls]

theorem finalTally_lost (id : eSystemPollID) :
    (desc.finalTally accessToken sdm).lost id = desc.loses accessToken sdm id := by
  unfold finalTally loses
  cases desc.mPollExt with
  | none => simp
  | some pollExt =>
      dsimp only [RightsState.tally]
      rw [RightsState.tally_foldl_lost]
      simp [mem_askedPolls, CPollFileElem.turnsDown]

theorem finalTally_assets :
    (desc.finalTally accessToken sdm).assets =
      (desc.wins accessToken sdm .removalAccessRightsPoll ||
        !(desc.wins accessToken sdm .writeAccessRightsPoll ||
          desc.wins accessToken sdm .executeAccessRightsPoll)) := by
  unfold finalTally wins
  cases desc.mPollExt with
  | none => simp
  | some pollExt =>
      dsimp only [RightsState.tally]
      rw [RightsState.tally_foldl_assets, askedPolls, RightsState.foldl_freshAssets]
      rfl

/-- A poll whose permission is not requested is passed over. -/
theorem foldlM_checkPoll_filter (memory : Memory) (ids : List eSystemPollID) (st : RightsState) :
    ids.foldlM (RightsState.checkPoll sdm memory accessToken) st =
      (ids.filter accessToken.mReqPerm.requests).foldlM
        (RightsState.checkPoll sdm memory accessToken) st := by
  induction ids generalizing st with
  | nil => rfl
  | cons id ids ih =>
      cases hasked : accessToken.mReqPerm.requests id with
      | true =>
          rw [List.filter_cons_of_pos hasked, List.foldlM_cons, List.foldlM_cons]
          exact congrArg _ (funext ih)
      | false =>
          have hskip : RightsState.checkPoll sdm memory accessToken st id = some st := by
            unfold RightsState.checkPoll
            rw [hasked]
            cases st.desc.mPollExt <;> rfl
          rw [List.filter_cons_of_neg (by simp [hasked]), List.foldlM_cons, hskip]
          exact ih st

/-- Without polls no section does anything. -/
theorem foldlM_checkPoll_without (memory : Memory) {st : RightsState}
    (hext : st.desc.mPollExt = none)
    (ids : List eSystemPollID) :
    ids.foldlM (RightsState.checkPoll sdm memory accessToken) st = some st := by
  induction ids with
  | nil => rfl
  | cons id ids ih =>
      have hstep : RightsState.checkPoll sdm memory accessToken st id = some st := by
        rw [RightsState.checkPoll, hext]
      rw [List.foldlM_cons, hstep]
      exact ih

theorem tracks_beginRights (memory : Memory) :
    RightsState.Tracks desc accessToken.mEntityID {} (desc.beginRights accessToken memory) := by
  unfold beginRights
  cases hstored : desc.getACEforEntity accessToken.mEntityID with
  | none =>
      refine ⟨rfl, rfl, rfl, rfl, rfl, fun i hi => ?_, fun _ => ⟨rfl, _, rfl, rfl⟩⟩
      exact absurd (hstored.symm.trans hi) (Option.some_ne_none i).symm
  | some i =>
      refine ⟨rfl, rfl, rfl, rfl, rfl, fun j hj => ?_, fun hnone => ?_⟩
      · obtain rfl : i = j := Option.some_inj.mp (hstored.symm.trans hj)
        exact ⟨rfl, rfl⟩
      · exact absurd (hstored.symm.trans hnone) (Option.some_ne_none i)

/-- The polls asked from the beginning. -/
theorem foldlM_checkPoll_finalTally (memory : Memory) :
    if desc.breaks accessToken sdm then
      systemPolls.foldlM (RightsState.checkPoll sdm memory accessToken)
        (desc.beginRights accessToken memory) = none
    else ∃ st, systemPolls.foldlM (RightsState.checkPoll sdm memory accessToken)
        (desc.beginRights accessToken memory) = some st ∧
      RightsState.Tracks desc accessToken.mEntityID (desc.finalTally accessToken sdm) st := by
  have hbegin := desc.tracks_beginRights accessToken memory
  have hasked : ∀ id ∈ askedPolls accessToken, accessToken.mReqPerm.requests id = true :=
    fun id hid => (mem_askedPolls accessToken id).mp hid
  rw [foldlM_checkPoll_filter]
  change if _ then (askedPolls accessToken).foldlM _ _ = none
    else ∃ st, (askedPolls accessToken).foldlM _ _ = some st ∧ _
  unfold breaks finalTally
  cases hext : desc.mPollExt with
  | none =>
      exact ⟨_, foldlM_checkPoll_without accessToken sdm memory (hbegin.pollExt.trans hext) _, hbegin⟩
  | some pollExt =>
      have hnodup : (askedPolls accessToken).Nodup := List.Nodup.filter _ (by decide)
      have hbest : (desc.beginRights accessToken memory).best = {} := by
        unfold beginRights
        cases desc.getACEforEntity accessToken.mEntityID <;> rfl
      rw [Option.any_some]
      split_ifs with hbreaks
      · exact RightsState.foldlM_checkPoll_none (hbegin.pollExt.trans hext) sdm memory hasked
          (List.any_eq_true.mp hbreaks)
      · have hsound : ∀ id ∈ askedPolls accessToken, pollExt.breaksAt sdm id = false :=
          fun id hid => Bool.eq_false_iff.mpr fun hbreak =>
            hbreaks (List.any_eq_true.mpr ⟨id, hid, hbreak⟩)
        have hrun := RightsState.foldlM_checkPoll_tracks hext sdm memory hnodup hasked hsound hbegin
        rw [hbest] at hrun
        exact hrun

theorem exists_of_getACEforEntity {desc : CSecDescriptor} {sdID : Bytes} {i : ℕ}
    (hfind : desc.getACEforEntity sdID = some i) :
    ∃ entry, desc.mAccessEntries[i]? = some entry ∧ entry.mSDID = sdID := by
  obtain ⟨hlt, hid, -⟩ := List.findIdx?_eq_some_iff_getElem.mp hfind
  exact ⟨desc.mAccessEntries[i], List.getElem?_eq_getElem hlt, by simpa using hid⟩

/-- The right to spend at the end, read off the tally. -/
theorem concludeRights_mSpending {desc : CSecDescriptor} {accessToken : CAccessToken}
    {t : RightsState.Tally} {st : RightsState}
    (htracks : RightsState.Tracks desc accessToken.mEntityID t st) :
    (st.concludeRights accessToken).mSpending =
      (!t.lost .ownershipChangeAccessRightsPoll && st.desc.isOwner accessToken ||
        !t.lost .spendingsAcessRightsPoll &&
          ((desc.getACEforEntity accessToken.mEntityID).isSome || t.assets)) := by
  have hentry : ∃ entry, st.aceEntry = some entry ∧ entry.mFlags.mAssets =
      ((desc.getACEforEntity accessToken.mEntityID).isSome || t.assets) := by
    cases hstored : desc.getACEforEntity accessToken.mEntityID with
    | none =>
        obtain ⟨-, entry, hace, hassets⟩ := htracks.fresh hstored
        exact ⟨entry, by rw [RightsState.aceEntry, hace], hassets⟩
    | some i =>
        obtain ⟨hace, hentries⟩ := htracks.stored i hstored
        obtain ⟨entry, hat, -⟩ := exists_of_getACEforEntity hstored
        refine ⟨RightsState.storedEntry t entry, ?_, ?_⟩
        · rw [RightsState.aceEntry, hace]
          dsimp only
          rw [hentries, List.getElem?_modify, hat]
          simp
        · unfold RightsState.storedEntry
          split_ifs <;> rfl
  obtain ⟨entry, hace, hassets⟩ := hentry
  rw [RightsState.concludeRights, htracks.forceAbort, hace]
  cases t.lost .ownershipChangeAccessRightsPoll with
  | true =>
      simp [RightsState.extendByEntry, RightsState.extendByFlags, htracks.spending,
        htracks.forceAbort, hassets]
  | false =>
      cases st.desc.isOwner accessToken with
      | true => simp
      | false =>
          simp [RightsState.extendByEntry, RightsState.extendByFlags, htracks.spending,
            htracks.forceAbort, hassets]

/-- The owner as the claim to the object goes: the explicit one, else the implicit one. -/
def isObjectOwner (desc : CSecDescriptor) (entityID : Bytes) : Bool :=
  if desc.mOwner ≠ [] then entityID = desc.mOwner
  else desc.mImplicitOwner ≠ [] && entityID = desc.mImplicitOwner

/-- Nothing entitles the caller to spend: neither its identity, nor ownership, nor an entry that
carries the assets, nor the spendings poll. -/
structure NotEntitled (isAnOverwatch : Bytes → Bool) (desc : CSecDescriptor)
    (accessToken : CAccessToken) (sdm : Option CStateDomainManager) : Prop where
  overwatch : isAnOverwatch accessToken.mEntityID = false
  system : accessToken.mIsSystem = false
  owner : desc.isObjectOwner accessToken.mEntityID = false
  entries : ∀ entry ∈ desc.mAccessEntries,
    entry.mSDID = accessToken.mEntityID → entry.mFlags.mAssets = false
  poll : (desc.mPollExt.bind fun pollExt => pollExt.winner sdm .spendingsAcessRightsPoll) ≠
    some accessToken.mEntityID

/-- The right to spend is not given: not among the effective rights, and a request for it is not
allowed. -/
def SpendingWithheld (isAnOverwatch : Bytes → Bool) (desc : CSecDescriptor)
    (accessToken : CAccessToken) (sdm : Option CStateDomainManager) (memory : Memory)
    (updateSecDesc : Bool) : Prop :=
  ∃ result, desc.getEffectiveRights isAnOverwatch accessToken sdm memory updateSecDesc =
      some result ∧ result.rights.mSpending = false ∧
    (accessToken.mReqPerm.mSpending = true →
      ∃ answer, desc.getIsAllowed isAnOverwatch accessToken sdm memory updateSecDesc =
        some answer ∧ answer.1 = false)

/-- An entry has gained only permissions whose poll its entity wins. -/
def EntryAddsOnlyWon (desc : CSecDescriptor) (sdm : Option CStateDomainManager)
    (before after : CAccessEntry) : Prop :=
  (∀ id, after.mFlags.permits id = true → before.mFlags.permits id = true ∨
      (desc.mPollExt.bind fun pollExt => pollExt.winner sdm id) = some before.mSDID) ∧
    (after.mFlags.mRead = true → before.mFlags.mRead = true) ∧
    (after.mFlags.mIsPollPermission = true → before.mFlags.mIsPollPermission = true)

/-- The evaluation adds to a stored entry only permissions whose poll the entity of the entry
wins. -/
def AddsOnlyWon (isAnOverwatch : Bytes → Bool) (desc : CSecDescriptor) (accessToken : CAccessToken)
    (sdm : Option CStateDomainManager) (memory : Memory) (updateSecDesc : Bool) : Prop :=
  ∀ result, desc.getEffectiveRights isAnOverwatch accessToken sdm memory updateSecDesc =
      some result →
    ∀ (i : ℕ) before after, desc.mAccessEntries[i]? = some before →
      result.desc.mAccessEntries[i]? = some after → desc.EntryAddsOnlyWon sdm before after

/-- The owner's rights are out of the caller's reach: the ownership poll turns it down; or it is
elected under the empty ID; or it is not elected, and there is no explicit owner or the caller's ID
is not its own friendly ID. -/
def OwnershipOutOfReach (desc : CSecDescriptor) (accessToken : CAccessToken)
    (sdm : Option CStateDomainManager) : Prop :=
  desc.loses accessToken sdm .ownershipChangeAccessRightsPoll = true ∨
    if desc.wins accessToken sdm .ownershipChangeAccessRightsPoll then accessToken.mEntityID = []
    else desc.mOwner = [] ∨ accessToken.mEntityID ≠ accessToken.mFriendlyID

/-- Either the object is for the system only; or no section dereferences a null pointer, ownership
is out of reach, and either the spendings poll turns the caller down or the entry made for it last,
for writing or execution, is a new one without the assets. -/
def SpendingRefused (desc : CSecDescriptor) (accessToken : CAccessToken)
    (sdm : Option CStateDomainManager) : Prop :=
  desc.mFlags.mSysOnly = true ∨
    desc.breaks accessToken sdm = false ∧ desc.OwnershipOutOfReach accessToken sdm ∧
      (desc.loses accessToken sdm .spendingsAcessRightsPoll = true ∨
        desc.getACEforEntity accessToken.mEntityID = none ∧
          desc.wins accessToken sdm .removalAccessRightsPoll = false ∧
          (desc.wins accessToken sdm .writeAccessRightsPoll = true ∨
            desc.wins accessToken sdm .executeAccessRightsPoll = true))

/-- No null pointer is dereferenced. -/
def completes (desc : CSecDescriptor) (accessToken : CAccessToken)
    (sdm : Option CStateDomainManager) : Bool :=
  accessToken.mIsSystem || desc.mFlags.mSysOnly || !desc.breaks accessToken sdm

/-- The caller gets as far as the removal poll and is taken for its winner. -/
def winsRemoval (desc : CSecDescriptor) (accessToken : CAccessToken)
    (sdm : Option CStateDomainManager) : Bool :=
  !accessToken.mIsSystem && !desc.mFlags.mSysOnly &&
    desc.wins accessToken sdm .removalAccessRightsPoll

/-- The caller's stored entry has nothing to gain: it carries the assets already, or the caller wins
the spendings poll; and where the caller is taken for the winner of the removal poll, the entry
allows removal already, or the caller does win that poll. -/
def NothingToGain (isAnOverwatch : Bytes → Bool) (desc : CSecDescriptor)
    (accessToken : CAccessToken) (sdm : Option CStateDomainManager) : Prop :=
  isAnOverwatch accessToken.mEntityID = false → desc.completes accessToken sdm = true →
    ∀ i entry, desc.getACEforEntity accessToken.mEntityID = some i →
      desc.mAccessEntries[i]? = some entry →
        (entry.mFlags.mAssets = true ∨
          (desc.mPollExt.bind fun pollExt => pollExt.winner sdm .spendingsAcessRightsPoll) =
            some accessToken.mEntityID) ∧
        (desc.winsRemoval accessToken sdm = true → entry.mFlags.mRemoval = true ∨
          (desc.mPollExt.bind fun pollExt => pollExt.winner sdm .removalAccessRightsPoll) =
            some accessToken.mEntityID)

section Final

variable {isAnOverwatch : Bytes → Bool} {desc : CSecDescriptor} {accessToken : CAccessToken}
  {sdm : Option CStateDomainManager} {memory : Memory} {updateSecDesc : Bool}

/-- For a caller that is not the owner at the beginning, the owner's rights at the end. -/
theorem owner_rights_eq_false_iff (hnotOwner : desc.isObjectOwner accessToken.mEntityID = false)
    {st : RightsState}
    (htracks : RightsState.Tracks desc accessToken.mEntityID (desc.finalTally accessToken sdm) st) :
    (!(desc.finalTally accessToken sdm).lost .ownershipChangeAccessRightsPoll &&
      st.desc.isOwner accessToken) = false ↔ desc.OwnershipOutOfReach accessToken sdm := by
  have howner := htracks.owner
  rw [finalTally_won] at howner
  rw [finalTally_lost, OwnershipOutOfReach]
  cases desc.loses accessToken sdm .ownershipChangeAccessRightsPoll with
  | true => simp
  | false =>
      unfold isOwner
      rw [howner, htracks.implicitOwner]
      cases desc.wins accessToken sdm .ownershipChangeAccessRightsPoll with
      | true =>
          by_cases hid : accessToken.mEntityID = []
          · simp [hid, eq_comm]
          · simp [hid]
      | false =>
          unfold isObjectOwner at hnotOwner
          by_cases hexplicit : desc.mOwner = []
          · simpa [hexplicit] using hnotOwner
          · have hother : accessToken.mEntityID ≠ desc.mOwner := by
              simpa [hexplicit] using hnotOwner
            simp [hexplicit, hother]

/-- The run of a caller that is neither an Overwatch nor the system, on an object for everyone. -/
theorem getEffectiveRights_eq_none (memory : Memory) (updateSecDesc : Bool)
    (hoverwatch : isAnOverwatch accessToken.mEntityID = false)
    (hsystem : accessToken.mIsSystem = false) (hsysOnly : desc.mFlags.mSysOnly = false)
    (hbreaks : desc.breaks accessToken sdm = true) :
    desc.getEffectiveRights isAnOverwatch accessToken sdm memory updateSecDesc = none := by
  have hrun := desc.foldlM_checkPoll_finalTally accessToken sdm memory
  rw [if_pos hbreaks] at hrun
  simp [getEffectiveRights, hoverwatch, hsystem, hsysOnly, hrun]

theorem getEffectiveRights_eq_some (memory : Memory) (updateSecDesc : Bool)
    (hoverwatch : isAnOverwatch accessToken.mEntityID = false)
    (hsystem : accessToken.mIsSystem = false) (hsysOnly : desc.mFlags.mSysOnly = false)
    (hsound : desc.breaks accessToken sdm = false) :
    ∃ st, RightsState.Tracks desc accessToken.mEntityID (desc.finalTally accessToken sdm) st ∧
      desc.getEffectiveRights isAnOverwatch accessToken sdm memory updateSecDesc =
        some ⟨st.concludeRights accessToken, st.desc, st.updateSecDesc⟩ := by
  have hrun := desc.foldlM_checkPoll_finalTally accessToken sdm memory
  rw [if_neg (by simp [hsound])] at hrun
  obtain ⟨st, hst, htracks⟩ := hrun
  exact ⟨st, htracks, by simp [getEffectiveRights, hoverwatch, hsystem, hsysOnly, hst]⟩

/-- A request to spend is not allowed where the right is not among the effective ones. -/
theorem getIsAllowed_of_not_mSpending {result : RightsResult}
    (hresult : desc.getEffectiveRights isAnOverwatch accessToken sdm memory updateSecDesc =
      some result)
    (hspending : result.rights.mSpending = false) (hasked : accessToken.mReqPerm.mSpending = true) :
    ∃ answer, desc.getIsAllowed isAnOverwatch accessToken sdm memory updateSecDesc = some answer ∧
      answer.1 = false := by
  refine ⟨_, by rw [getIsAllowed, hresult, Option.map_some], ?_⟩
  dsimp only
  simp [hspending, hasked]

/-- Without an entitlement, the right to spend is withheld exactly when it is refused. -/
theorem spendingWithheld_iff (hclaim : NotEntitled isAnOverwatch desc accessToken sdm) :
    desc.SpendingWithheld isAnOverwatch accessToken sdm memory updateSecDesc ↔
      desc.SpendingRefused accessToken sdm := by
  unfold SpendingRefused
  cases hsysOnly : desc.mFlags.mSysOnly with
  | true =>
      have hresult : desc.getEffectiveRights isAnOverwatch accessToken sdm memory updateSecDesc =
          some ⟨⟨true, false, true, false, false, false, false⟩,
            (desc.beginRights accessToken memory).desc,
            (desc.beginRights accessToken memory).updateSecDesc⟩ := by
        simp [getEffectiveRights, hclaim.overwatch, hclaim.system, hsysOnly]
      exact iff_of_true ⟨_, hresult, rfl, getIsAllowed_of_not_mSpending hresult rfl⟩ (Or.inl rfl)
  | false =>
      cases hbreaks : desc.breaks accessToken sdm with
      | true =>
          have hnone := getEffectiveRights_eq_none memory updateSecDesc hclaim.overwatch hclaim.system hsysOnly hbreaks
          simp [SpendingWithheld, hnone]
      | false =>
          obtain ⟨st, htracks, hresult⟩ := getEffectiveRights_eq_some memory updateSecDesc hclaim.overwatch hclaim.system hsysOnly hbreaks
          have hspending := concludeRights_mSpending htracks
          have howner := owner_rights_eq_false_iff hclaim.owner htracks
          have hrefused : (st.concludeRights accessToken).mSpending = false ↔
              desc.OwnershipOutOfReach accessToken sdm ∧
                (desc.loses accessToken sdm .spendingsAcessRightsPoll = true ∨
                  desc.getACEforEntity accessToken.mEntityID = none ∧
                    desc.wins accessToken sdm .removalAccessRightsPoll = false ∧
                    (desc.wins accessToken sdm .writeAccessRightsPoll = true ∨
                      desc.wins accessToken sdm .executeAccessRightsPoll = true)) := by
            rw [hspending, Bool.or_eq_false_iff, howner, finalTally_lost, finalTally_assets]
            refine and_congr_right fun _ => ?_
            cases desc.loses accessToken sdm .spendingsAcessRightsPoll with
            | true => simp
            | false =>
                cases desc.getACEforEntity accessToken.mEntityID with
                | some i => simp
                | none =>
                    cases desc.wins accessToken sdm .removalAccessRightsPoll with
                    | true => simp
                    | false =>
                        cases desc.wins accessToken sdm .writeAccessRightsPoll with
                        | true => simp
                        | false => simp
          simp only [Bool.false_eq_true, false_or, true_and, ← hrefused]
          constructor
          · rintro ⟨result, hsome, hwithheld, -⟩
            cases hresult.symm.trans hsome
            exact hwithheld
          · intro hwithheld
            exact ⟨_, hresult, hwithheld, getIsAllowed_of_not_mSpending hresult hwithheld⟩

/-- What the evaluation leaves of the stored entries. -/
theorem getEffectiveRights_entries (memory : Memory) (updateSecDesc : Bool)
    (hoverwatch : isAnOverwatch accessToken.mEntityID = false)
    (hcompletes : desc.completes accessToken sdm = true) :
    ∃ result t, desc.getEffectiveRights isAnOverwatch accessToken sdm memory updateSecDesc =
        some result ∧
      t.won .removalAccessRightsPoll = desc.winsRemoval accessToken sdm ∧
      (∀ i, desc.getACEforEntity accessToken.mEntityID = some i →
        result.desc.mAccessEntries = desc.mAccessEntries.modify i (RightsState.storedEntry t)) ∧
      (desc.getACEforEntity accessToken.mEntityID = none →
        result.desc.mAccessEntries = desc.mAccessEntries) := by
  have hbegin := desc.tracks_beginRights accessToken memory
  cases hsystem : accessToken.mIsSystem with
  | true =>
      refine ⟨_, {}, by simp [getEffectiveRights, hoverwatch, hsystem]; rfl, ?_, ?_, ?_⟩
      · simp [winsRemoval, hsystem]
      · exact fun i hi => (hbegin.stored i hi).2
      · exact fun hnone => (hbegin.fresh hnone).1
  | false =>
      cases hsysOnly : desc.mFlags.mSysOnly with
      | true =>
          refine ⟨_, {}, by simp [getEffectiveRights, hoverwatch, hsystem, hsysOnly]; rfl, ?_, ?_, ?_⟩
          · simp [winsRemoval, hsysOnly]
          · exact fun i hi => (hbegin.stored i hi).2
          · exact fun hnone => (hbegin.fresh hnone).1
      | false =>
          have hsound : desc.breaks accessToken sdm = false := by
            simpa [completes, hsystem, hsysOnly] using hcompletes
          obtain ⟨st, htracks, hresult⟩ :=
            getEffectiveRights_eq_some memory updateSecDesc hoverwatch hsystem hsysOnly hsound
          refine ⟨_, desc.finalTally accessToken sdm, hresult, ?_, ?_, ?_⟩
          · simp [finalTally_won, winsRemoval, hsystem, hsysOnly]
          · exact fun i hi => (htracks.stored i hi).2
          · exact fun hnone => (htracks.fresh hnone).1

theorem storedEntry_permits (t : RightsState.Tally) (entry : CAccessEntry) (id : eSystemPollID) :
    (RightsState.storedEntry t entry).mFlags.permits id = true ↔
      entry.mFlags.permits id = true ∨ id = .spendingsAcessRightsPoll ∨
        id = .removalAccessRightsPoll ∧ t.won .removalAccessRightsPoll = true := by
  unfold RightsState.storedEntry
  cases t.won .removalAccessRightsPoll with
  | true =>
      cases id <;> simp [AEFlags.permits, CAccessEntry.grantAssets, CAccessEntry.grantRemoval,
        AEFlags.setAssets, AEFlags.setRemoval]
  | false =>
      cases id <;> simp [AEFlags.permits, CAccessEntry.grantAssets, AEFlags.setAssets]

theorem EntryAddsOnlyWon.refl (entry : CAccessEntry) : desc.EntryAddsOnlyWon sdm entry entry :=
  ⟨fun _ hpermits => Or.inl hpermits, fun hread => hread, fun hvoting => hvoting⟩

/-- The caller's stored entry after the evaluation. -/
theorem entryAddsOnlyWon_storedEntry_iff (t : RightsState.Tally) (entry : CAccessEntry) :
    desc.EntryAddsOnlyWon sdm entry (RightsState.storedEntry t entry) ↔
      (entry.mFlags.mAssets = true ∨
        (desc.mPollExt.bind fun pollExt => pollExt.winner sdm .spendingsAcessRightsPoll) =
          some entry.mSDID) ∧
      (t.won .removalAccessRightsPoll = true → entry.mFlags.mRemoval = true ∨
        (desc.mPollExt.bind fun pollExt => pollExt.winner sdm .removalAccessRightsPoll) =
          some entry.mSDID) := by
  constructor
  · rintro ⟨hpermits, -⟩
    refine ⟨hpermits .spendingsAcessRightsPoll ?_, fun hwon => hpermits .removalAccessRightsPoll ?_⟩
    · exact (storedEntry_permits t entry _).mpr (Or.inr (Or.inl rfl))
    · exact (storedEntry_permits t entry _).mpr (Or.inr (Or.inr ⟨rfl, hwon⟩))
  · rintro ⟨hassets, hremoval⟩
    refine ⟨fun id hpermits => ?_, ?_, ?_⟩
    · rcases (storedEntry_permits t entry id).mp hpermits with hbefore | rfl | ⟨rfl, hwon⟩
      · exact Or.inl hbefore
      · exact hassets
      · exact hremoval hwon
    · unfold RightsState.storedEntry
      split_ifs <;> exact fun hread => hread
    · unfold RightsState.storedEntry
      split_ifs <;> exact fun hvoting => hvoting

/-- The evaluation adds only what was won exactly when the stored entry has nothing to gain. -/
theorem addsOnlyWon_iff (memory : Memory) (updateSecDesc : Bool) :
    desc.AddsOnlyWon isAnOverwatch accessToken sdm memory updateSecDesc ↔
      desc.NothingToGain isAnOverwatch accessToken sdm := by
  cases hoverwatch : isAnOverwatch accessToken.mEntityID with
  | true =>
      refine iff_of_true ?_ fun hnot => absurd (hoverwatch.symm.trans hnot) (by decide)
      intro result hresult i before after hbefore hafter
      obtain rfl : result.desc = desc := by
        simp only [getEffectiveRights, hoverwatch, if_true, Option.some_inj] at hresult
        rw [← hresult]
      cases hbefore.symm.trans hafter
      exact EntryAddsOnlyWon.refl before
  | false =>
      cases hcompletes : desc.completes accessToken sdm with
      | false =>
          simp only [completes, Bool.or_eq_false_iff, Bool.not_eq_false'] at hcompletes
          obtain ⟨⟨hsystem, hsysOnly⟩, hbreaks⟩ := hcompletes
          have hnone := getEffectiveRights_eq_none memory updateSecDesc hoverwatch hsystem hsysOnly
            hbreaks
          refine iff_of_true ?_ fun _ hdone => ?_
          · exact fun result hresult => absurd (hnone.symm.trans hresult) (by simp)
          · simp [completes, hsystem, hsysOnly, hbreaks] at hdone
      | true =>
          obtain ⟨result, t, hresult, hwon, hstored, hfresh⟩ :=
            getEffectiveRights_entries memory updateSecDesc hoverwatch hcompletes
          unfold AddsOnlyWon NothingToGain
          rw [hresult, ← hwon]
          constructor
          · intro hadds _ _ i entry hi hat
            obtain ⟨entry', hat', hid⟩ := exists_of_getACEforEntity hi
            cases hat.symm.trans hat'
            rw [← hid]
            apply (entryAddsOnlyWon_storedEntry_iff t entry).mp
            refine hadds result rfl i entry _ hat ?_
            rw [hstored i hi, List.getElem?_modify, hat]
            simp
          · intro hnothing result' hsame i before after hbefore hafter
            cases hsame
            cases hi : desc.getACEforEntity accessToken.mEntityID with
            | none =>
                rw [hfresh hi] at hafter
                cases hbefore.symm.trans hafter
                exact EntryAddsOnlyWon.refl before
            | some k =>
                rw [hstored k hi, List.getElem?_modify, hbefore] at hafter
                obtain ⟨entry', hat', hid⟩ := exists_of_getACEforEntity hi
                by_cases hki : k = i
                · subst hki
                  cases hbefore.symm.trans hat'
                  obtain rfl : RightsState.storedEntry t before = after := by simpa using hafter
                  refine (entryAddsOnlyWon_storedEntry_iff t before).mpr ?_
                  rw [hid]
                  exact hnothing hoverwatch hcompletes k before hi hbefore
                · obtain rfl : before = after := by simpa [hki] using hafter
                  exact EntryAddsOnlyWon.refl before

end Final

/-- Evaluating rights lets nobody spend who is not entitled to, and adds to the stored entries only
what was won, exactly when every such caller is refused and the caller's stored entry has nothing to
gain. -/
theorem spending_rights_iff (isAnOverwatch : Bytes → Bool) (desc : CSecDescriptor)
    (accessToken : CAccessToken) (sdm : Option CStateDomainManager) (memory : Memory)
    (updateSecDesc : Bool) :
    (NotEntitled isAnOverwatch desc accessToken sdm →
        desc.SpendingWithheld isAnOverwatch accessToken sdm memory updateSecDesc) ∧
      desc.AddsOnlyWon isAnOverwatch accessToken sdm memory updateSecDesc ↔
    (NotEntitled isAnOverwatch desc accessToken sdm → desc.SpendingRefused accessToken sdm) ∧
      desc.NothingToGain isAnOverwatch accessToken sdm := by
  refine and_congr ?_ (addsOnlyWon_iff memory updateSecDesc)
  exact forall_congr' fun hclaim => spendingWithheld_iff hclaim

/-- A stranger at an object that has an owner and nothing else. -/
theorem stranger_may_spend :
    ¬ ∀ (isAnOverwatch : Bytes → Bool) (desc : CSecDescriptor) (accessToken : CAccessToken)
      (sdm : Option CStateDomainManager) (memory : Memory) (updateSecDesc : Bool),
      (NotEntitled isAnOverwatch desc accessToken sdm →
        desc.SpendingWithheld isAnOverwatch accessToken sdm memory updateSecDesc) ∧
      desc.AddsOnlyWon isAnOverwatch accessToken sdm memory updateSecDesc := by
  intro hall
  let desc : CSecDescriptor := { mOwner := [1] }
  let accessToken : CAccessToken := { mReqPerm := { mSpending := true }, mEntityID := [2] }
  have hnotEntitled : NotEntitled (fun _ => false) desc accessToken none :=
    ⟨rfl, rfl, by decide, by decide, by decide⟩
  obtain ⟨result, hresult, hspending, -⟩ :=
    (hall (fun _ => false) desc accessToken none (fun _ => {}) false).1 hnotEntitled
  have hmay : (desc.getEffectiveRights (fun _ => false) accessToken none (fun _ => {}) false).map
      (fun result => result.rights.mSpending) = some true := by
    decide
  rw [hresult, Option.map_some, hspending] at hmay
  exact absurd hmay (by decide)

end CSecDescriptor
end Gridnet
