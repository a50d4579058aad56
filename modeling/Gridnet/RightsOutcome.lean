import Gridnet.SpendingRights

/-! All the rights at the end of `getEffectiveRights`. Beside the tally of `SpendingRights`, what the
polls leave in the rights of everyone and in a new entry is followed through the sections; each right
is then read off the polls won and lost, the flags of the object and the entry of the caller. -/

namespace Gridnet

/-- The right a system poll is about. -/
def CEffectiveRights.permits (rights : CEffectiveRights) : eSystemPollID → Bool
  | .spendingsAcessRightsPoll => rights.mSpending
  | .writeAccessRightsPoll => rights.mWrite
  | .ownershipChangeAccessRightsPoll => rights.mOwnership
  | .executeAccessRightsPoll => rights.mExecute
  | .removalAccessRightsPoll => rights.mRemoval

/-- What the flags of an object allow everyone. -/
def CRTFlags.everyone (flags : CRTFlags) : eSystemPollID → Bool
  | .writeAccessRightsPoll => flags.mEveryoneWrite
  | .executeAccessRightsPoll => flags.mEveryoneExecute
  | _ => false

theorem CEffectiveRights.withhold_permits (rights : CEffectiveRights) (id id' : eSystemPollID) :
    (rights.withhold id).permits id' = (rights.permits id' && !decide (id' = id)) := by
  cases id <;> cases id' <;> simp [CEffectiveRights.withhold, CEffectiveRights.permits]

namespace RightsState

/-- The new entry of a caller whom the descriptor stores none for: that of the voting section, or that
of the section of the poll it won last. -/
def newEntry (memory : Memory) (entityID : Bytes) : Option eSystemPollID → CAccessEntry
  | none => (CAccessEntry.constructDefault (memory none) entityID).grantAssets true
  | some id => grantFresh id (CAccessEntry.constructDefault (memory (some id)) entityID)

/-- The poll whose section makes the new entry next; winning the ownership makes none. -/
def nextWon (last : Option eSystemPollID) (id : eSystemPollID) (elected : Bool) :
    Option eSystemPollID :=
  if elected && id ≠ .ownershipChangeAccessRightsPoll then some id else last

/-- The rights of everyone are those of the flags where no poll aborted, and the new entry is that of
the poll won last. -/
structure Follows (desc : CSecDescriptor) (memory : Memory) (entityID : Bytes)
    (last : Option eSystemPollID) (st : RightsState) : Prop where
  flags : st.desc.mFlags = desc.mFlags
  rights : ∀ id, st.toRet.permits id = (desc.mFlags.everyone id && !st.forceAbort id)
  fresh : desc.getACEforEntity entityID = none → st.ace = .fresh (newEntry memory entityID last)

section Follows

variable {desc : CSecDescriptor} {memory : Memory} {entityID : Bytes} {t : Tally} {st : RightsState}
  {last : Option eSystemPollID}

theorem Follows.withBest (hfollows : Follows desc memory entityID last st) (best : BestCandidate) :
    Follows desc memory entityID last { st with best := best } :=
  ⟨hfollows.flags, hfollows.rights, hfollows.fresh⟩

theorem Follows.refuse (hfollows : Follows desc memory entityID last st) (id : eSystemPollID) :
    Follows desc memory entityID last (st.refuse id) where
  flags := hfollows.flags
  rights id' := by
    have hbefore := hfollows.rights id'
    simp only [RightsState.refuse, CEffectiveRights.withhold_permits, hbefore]
    by_cases hid : id' = id
    · simp [hid]
    · simp [hid]
  fresh := hfollows.fresh

theorem Follows.elect (hfollows : Follows desc memory entityID last st)
    (htracks : Tracks desc entityID t st) (id : eSystemPollID) :
    Follows desc memory entityID (nextWon last id true) (st.elect memory entityID id) := by
  unfold RightsState.elect nextWon
  by_cases hid : id = .ownershipChangeAccessRightsPoll
  · subst hid
    exact ⟨hfollows.flags, hfollows.rights, hfollows.fresh⟩
  · rw [if_neg hid, htracks.getACEforEntity_eq]
    cases hstored : desc.getACEforEntity entityID with
    | some i =>
        refine ⟨hfollows.flags, hfollows.rights, fun hnone => ?_⟩
        exact absurd (hstored.symm.trans hnone) (Option.some_ne_none i)
    | none =>
        refine ⟨hfollows.flags, hfollows.rights, fun _ => ?_⟩
        simp [hid, newEntry]

theorem Follows.settle (hfollows : Follows desc memory entityID last st)
    (htracks : Tracks desc entityID t st) (id : eSystemPollID) (elected turnedDown : Bool) :
    Follows desc memory entityID (nextWon last id elected)
      (st.settle memory entityID id elected turnedDown) := by
  cases elected with
  | true => exact hfollows.elect htracks id
  | false =>
      cases turnedDown with
      | true => exact hfollows.refuse id
      | false => exact hfollows

end Follows

/-- The poll won last when the polls `ids` are asked in turn. -/
def lastWon (pollExt : CPollFileElem) (sdm : Option CStateDomainManager) (entityID : Bytes)
    (best : BestCandidate) (ids : List eSystemPollID) (last : Option eSystemPollID) :
    Option eSystemPollID :=
  ids.foldl (fun last id => nextWon last id (pollExt.elects sdm best ids entityID id)) last

theorem lastWon_cons (pollExt : CPollFileElem) (sdm : Option CStateDomainManager) (entityID : Bytes)
    (best : BestCandidate) {id : eSystemPollID} {ids : List eSystemPollID} (hfresh : id ∉ ids)
    (last : Option eSystemPollID) :
    lastWon pollExt sdm entityID best (id :: ids) last =
      lastWon pollExt sdm entityID (pollExt.leader sdm best [id] id) ids
        (nextWon last id (pollExt.elects sdm best [id] entityID id)) := by
  unfold lastWon
  rw [List.foldl_cons, CPollFileElem.elects, CPollFileElem.elects, leader_cons_self]
  refine List.foldl_ext _ _ _ fun last id' hid' => ?_
  have hne : id ≠ id' := fun hsame => hfresh (hsame ▸ hid')
  rw [CPollFileElem.elects, CPollFileElem.elects, leader_cons pollExt sdm best hne]

/-- The run through the sections, followed. -/
theorem foldlM_checkPoll_follows {desc : CSecDescriptor} {t : Tally} {st st' : RightsState}
    {last : Option eSystemPollID} {pollExt : CPollFileElem} (hext : desc.mPollExt = some pollExt)
    (sdm : Option CStateDomainManager) (memory : Memory) {accessToken : CAccessToken}
    {ids : List eSystemPollID} (hids : ids.Nodup)
    (hasked : ∀ id ∈ ids, accessToken.mReqPerm.requests id = true)
    (htracks : Tracks desc accessToken.mEntityID t st)
    (hfollows : Follows desc memory accessToken.mEntityID last st)
    (hrun : ids.foldlM (checkPoll sdm memory accessToken) st = some st') :
    Follows desc memory accessToken.mEntityID
      (lastWon pollExt sdm accessToken.mEntityID st.best ids last) st' := by
  induction ids generalizing st t last with
  | nil =>
      cases hrun
      exact hfollows
  | cons id ids ih =>
      obtain ⟨hfresh, hids⟩ := List.nodup_cons.mp hids
      obtain ⟨hid, hasked⟩ := List.forall_mem_cons.mp hasked
      rw [List.foldlM_cons, checkPoll_eq (htracks.pollExt.trans hext) sdm memory hid] at hrun
      have hsound : pollExt.breaksAt sdm id = false := by
        cases hbreaks : pollExt.breaksAt sdm id with
        | true =>
            rw [hbreaks] at hrun
            cases hrun
        | false => rfl
      rw [hsound] at hrun
      have hbest : pollExt.elects sdm st.best [id] accessToken.mEntityID id = true →
          (pollExt.leader sdm st.best [id] id).id = accessToken.mEntityID := by
        intro helects
        exact (of_decide_eq_true (Bool.and_eq_true_iff.mp helects).2).symm
      have hbegun := htracks.withBest (pollExt.leader sdm st.best [id] id)
      have hsettled := hbegun.settle memory id
        (pollExt.turnsDown sdm st.best [id] accessToken.mEntityID id) hbest
      have hnext := (hfollows.withBest (pollExt.leader sdm st.best [id] id)).settle hbegun id
        (pollExt.elects sdm st.best [id] accessToken.mEntityID id)
        (pollExt.turnsDown sdm st.best [id] accessToken.mEntityID id)
      have hend := ih hids hasked hsettled hnext hrun
      rw [settle_best] at hend
      rw [lastWon_cons pollExt sdm _ _ hfresh]
      exact hend

/-- The poll won last, in the order in which the polls are asked. -/
theorem foldl_nextWon (w p : eSystemPollID → Bool) :
    (CSecDescriptor.systemPolls.filter p).foldl (fun last id => nextWon last id (w id)) none =
      if p .removalAccessRightsPoll && w .removalAccessRightsPoll then
        some .removalAccessRightsPoll
      else if p .executeAccessRightsPoll && w .executeAccessRightsPoll then
        some .executeAccessRightsPoll
      else if p .writeAccessRightsPoll && w .writeAccessRightsPoll then some .writeAccessRightsPoll
      else if p .spendingsAcessRightsPoll && w .spendingsAcessRightsPoll then
        some .spendingsAcessRightsPoll
      else none := by
  rw [List.foldl_filter]
  have hboth : (fun last id => if p id = true then nextWon last id (w id) else last) =
      fun last id => nextWon last id (p id && w id) := by
    funext last id
    cases p id <;> rfl
  rw [hboth]
  simp only [CSecDescriptor.systemPolls, List.foldl_cons, List.foldl_nil]
  generalize (p .removalAccessRightsPoll && w .removalAccessRightsPoll) = removal
  generalize (p .writeAccessRightsPoll && w .writeAccessRightsPoll) = write
  generalize (p .executeAccessRightsPoll && w .executeAccessRightsPoll) = execute
  generalize (p .spendingsAcessRightsPoll && w .spendingsAcessRightsPoll) = spending
  cases removal <;> cases write <;> cases execute <;> cases spending <;> simp [nextWon]

end RightsState

namespace CSecDescriptor

/-- The poll the caller wins last, but for the ownership poll. -/
def lastWon (desc : CSecDescriptor) (accessToken : CAccessToken) (sdm : Option CStateDomainManager) :
    Option eSystemPollID :=
  if desc.wins accessToken sdm .removalAccessRightsPoll then some .removalAccessRightsPoll
  else if desc.wins accessToken sdm .executeAccessRightsPoll then some .executeAccessRightsPoll
  else if desc.wins accessToken sdm .writeAccessRightsPoll then some .writeAccessRightsPoll
  else if desc.wins accessToken sdm .spendingsAcessRightsPoll then some .spendingsAcessRightsPoll
  else none

/-- The caller has the owner's rights at the end: the ownership poll does not turn it down, and either
elects it under an ID that is not empty, or leaves it the owner the code takes it for. -/
def ownsAtEnd (desc : CSecDescriptor) (accessToken : CAccessToken)
    (sdm : Option CStateDomainManager) : Bool :=
  !desc.loses accessToken sdm .ownershipChangeAccessRightsPoll &&
    if desc.wins accessToken sdm .ownershipChangeAccessRightsPoll then accessToken.mEntityID ≠ []
    else desc.isOwner accessToken

/-- What the caller's entry permits at the end. -/
def entryPermits (desc : CSecDescriptor) (accessToken : CAccessToken)
    (sdm : Option CStateDomainManager) (memory : Memory) (id : eSystemPollID) : Bool :=
  match (desc.getACEforEntity accessToken.mEntityID).bind fun i => desc.mAccessEntries[i]? with
  | some entry =>
      (RightsState.storedEntry (desc.finalTally accessToken sdm) entry).mFlags.permits id
  | none =>
      (RightsState.newEntry memory accessToken.mEntityID
        (desc.lastWon accessToken sdm)).mFlags.permits id

variable {desc : CSecDescriptor} {accessToken : CAccessToken} {sdm : Option CStateDomainManager}
  {memory : Memory}

theorem follows_beginRights (desc : CSecDescriptor) (accessToken : CAccessToken) (memory : Memory) :
    RightsState.Follows desc memory accessToken.mEntityID none
      (desc.beginRights accessToken memory) := by
  have hrights : ∀ id, CEffectiveRights.permits
      { mRead := desc.mFlags.mEveryoneRead, mWrite := desc.mFlags.mEveryoneWrite,
        mExecute := desc.mFlags.mEveryoneExecute } id = (desc.mFlags.everyone id && !false) := by
    intro id
    cases id <;> simp [CEffectiveRights.permits, CRTFlags.everyone]
  unfold beginRights
  cases hstored : desc.getACEforEntity accessToken.mEntityID with
  | some i => exact ⟨rfl, hrights, fun hnone => absurd (hstored.symm.trans hnone) (by simp)⟩
  | none => exact ⟨rfl, hrights, fun _ => rfl⟩

theorem lastWon_of_pollExt {pollExt : CPollFileElem} (hext : desc.mPollExt = some pollExt) :
    RightsState.lastWon pollExt sdm accessToken.mEntityID {} (askedPolls accessToken) none =
      desc.lastWon accessToken sdm := by
  unfold RightsState.lastWon lastWon wins
  rw [askedPolls, RightsState.foldl_nextWon, hext]
  rfl

/-- The run of a caller that is neither an Overwatch nor the system, on an object for everyone, with
all that is known of the variables at its end. -/
theorem getEffectiveRights_follows {isAnOverwatch : Bytes → Bool} (memory : Memory)
    (updateSecDesc : Bool) (hoverwatch : isAnOverwatch accessToken.mEntityID = false)
    (hsystem : accessToken.mIsSystem = false) (hsysOnly : desc.mFlags.mSysOnly = false)
    (hsound : desc.breaks accessToken sdm = false) :
    ∃ st, RightsState.Tracks desc accessToken.mEntityID (desc.finalTally accessToken sdm) st ∧
      RightsState.Follows desc memory accessToken.mEntityID (desc.lastWon accessToken sdm) st ∧
      desc.getEffectiveRights isAnOverwatch accessToken sdm memory updateSecDesc =
        some ⟨st.concludeRights accessToken, st.desc, st.updateSecDesc⟩ := by
  have hrun := desc.foldlM_checkPoll_finalTally accessToken sdm memory
  rw [if_neg (by simp [hsound])] at hrun
  obtain ⟨st, hst, htracks⟩ := hrun
  refine ⟨st, htracks, ?_, by simp [getEffectiveRights, hoverwatch, hsystem, hsysOnly, hst]⟩
  have hbegin := follows_beginRights desc accessToken memory
  have htracked := desc.tracks_beginRights accessToken memory
  cases hext : desc.mPollExt with
  | none =>
      have hlast : desc.lastWon accessToken sdm = none := by simp [lastWon, wins, hext]
      rw [foldlM_checkPoll_without accessToken sdm memory (htracked.pollExt.trans hext)] at hst
      cases hst
      rw [hlast]
      exact hbegin
  | some pollExt =>
      have hnodup : (askedPolls accessToken).Nodup := List.Nodup.filter _ (by decide)
      have hasked : ∀ id ∈ askedPolls accessToken, accessToken.mReqPerm.requests id = true :=
        fun id hid => (mem_askedPolls accessToken id).mp hid
      have hbest : (desc.beginRights accessToken memory).best = {} := by
        unfold beginRights
        cases desc.getACEforEntity accessToken.mEntityID <;> rfl
      rw [foldlM_checkPoll_filter] at hst
      have hend := RightsState.foldlM_checkPoll_follows hext sdm memory hnodup hasked htracked
        hbegin hst
      rw [hbest, lastWon_of_pollExt hext] at hend
      exact hend

/-- The entry behind the pointer at the end. -/
theorem aceEntry_permits {st : RightsState}
    (htracks : RightsState.Tracks desc accessToken.mEntityID (desc.finalTally accessToken sdm) st)
    (hfollows : RightsState.Follows desc memory accessToken.mEntityID
      (desc.lastWon accessToken sdm) st) :
    ∃ entry, st.aceEntry = some entry ∧
      ∀ id, entry.mFlags.permits id = desc.entryPermits accessToken sdm memory id := by
  unfold entryPermits
  cases hstored : desc.getACEforEntity accessToken.mEntityID with
  | none =>
      exact ⟨_, by rw [RightsState.aceEntry, hfollows.fresh hstored], fun id => rfl⟩
  | some i =>
      obtain ⟨hace, hentries⟩ := htracks.stored i hstored
      obtain ⟨entry, hat, -⟩ := exists_of_getACEforEntity hstored
      refine ⟨RightsState.storedEntry (desc.finalTally accessToken sdm) entry, ?_, fun id => ?_⟩
      · rw [RightsState.aceEntry, hace]
        dsimp only
        rw [hentries, List.getElem?_modify, hat]
        simp
      · rw [Option.bind_some, hat]

/-- Who is taken for the owner after the polls. -/
theorem isOwner_atEnd {st : RightsState}
    (htracks : RightsState.Tracks desc accessToken.mEntityID (desc.finalTally accessToken sdm) st) :
    (!(desc.finalTally accessToken sdm).lost .ownershipChangeAccessRightsPoll &&
      st.desc.isOwner accessToken) = desc.ownsAtEnd accessToken sdm := by
  have howner := htracks.owner
  rw [finalTally_won] at howner
  rw [finalTally_lost, ownsAtEnd]
  congr 1
  unfold isOwner
  rw [howner, htracks.implicitOwner]
  cases desc.wins accessToken sdm .ownershipChangeAccessRightsPoll with
  | true =>
      by_cases hid : accessToken.mEntityID = []
      · simp [hid, eq_comm]
      · simp [hid]
  | false => simp

/-- Each right at the end: the owner has all of them; for anybody else a right comes from the flags of
the object or from the entry, where its poll does not turn the caller down. -/
theorem concludeRights_permits {st : RightsState}
    (htracks : RightsState.Tracks desc accessToken.mEntityID (desc.finalTally accessToken sdm) st)
    (hfollows : RightsState.Follows desc memory accessToken.mEntityID
      (desc.lastWon accessToken sdm) st) (id : eSystemPollID) :
    (st.concludeRights accessToken).permits id =
      (desc.ownsAtEnd accessToken sdm ||
        id ≠ .ownershipChangeAccessRightsPoll && !desc.loses accessToken sdm id &&
          (desc.mFlags.everyone id || desc.entryPermits accessToken sdm memory id)) := by
  obtain ⟨entry, hace, hentry⟩ := aceEntry_permits htracks hfollows
  have howns := isOwner_atEnd htracks
  have hright := hfollows.rights id
  have hlost : st.forceAbort id = desc.loses accessToken sdm id := by
    rw [htracks.forceAbort, finalTally_lost]
  rw [← howns, ← hentry, ← hlost, RightsState.concludeRights, ← htracks.forceAbort, hace]
  cases howner : !st.forceAbort .ownershipChangeAccessRightsPoll && st.desc.isOwner accessToken with
  | true =>
      rw [if_pos (by simpa using howner)]
      cases id <;> simp [CEffectiveRights.permits]
  | false =>
      rw [if_neg (by simpa using howner)]
      have hextended : (st.extendByEntry st.extendByFlags entry).permits id =
          (st.toRet.permits id || id ≠ .ownershipChangeAccessRightsPoll && !st.forceAbort id &&
            (st.desc.mFlags.everyone id || entry.mFlags.permits id)) := by
        cases id <;>
          simp [CEffectiveRights.permits, RightsState.extendByEntry, RightsState.extendByFlags,
            CRTFlags.everyone, AEFlags.permits, Bool.and_or_distrib_left, Bool.or_assoc]
      dsimp only
      rw [hextended, hright, hfollows.flags]
      cases hallowed : desc.mFlags.everyone id with
      | true =>
          cases id <;> cases st.forceAbort _ <;> simp [CRTFlags.everyone] at hallowed ⊢
      | false => simp

/-- What comes of the rights where no section dereferences a null pointer. -/
theorem getEffectiveRights_permits {isAnOverwatch : Bytes → Bool} (memory : Memory)
    (updateSecDesc : Bool) (hoverwatch : isAnOverwatch accessToken.mEntityID = false)
    (hsystem : accessToken.mIsSystem = false) (hsysOnly : desc.mFlags.mSysOnly = false)
    (hsound : desc.breaks accessToken sdm = false) :
    ∃ result, desc.getEffectiveRights isAnOverwatch accessToken sdm memory updateSecDesc =
        some result ∧
      ∀ id, result.rights.permits id =
        (desc.ownsAtEnd accessToken sdm ||
          id ≠ .ownershipChangeAccessRightsPoll && !desc.loses accessToken sdm id &&
            (desc.mFlags.everyone id || desc.entryPermits accessToken sdm memory id)) := by
  obtain ⟨st, htracks, hfollows, hresult⟩ :=
    getEffectiveRights_follows memory updateSecDesc hoverwatch hsystem hsysOnly hsound
  exact ⟨_, hresult, concludeRights_permits htracks hfollows⟩

/-- `getEffectiveRights` for the pointer to a token. It is dereferenced for the entry of the caller
before it is tested. -/
def getEffectiveRightsOf (isAnOverwatch : Bytes → Bool) (desc : CSecDescriptor)
    (accessToken : Option CAccessToken) (sdm : Option CStateDomainManager) (memory : Memory)
    (updateSecDesc : Bool) : Option RightsResult :=
  accessToken.bind fun accessToken =>
    desc.getEffectiveRights isAnOverwatch accessToken sdm memory updateSecDesc

/-- The caller has nothing to do with the explicit owner of the object, and does not win the
ownership poll. -/
structure IsStranger (isAnOverwatch : Bytes → Bool) (desc : CSecDescriptor)
    (accessToken : CAccessToken) (sdm : Option CStateDomainManager) : Prop where
  owned : desc.mOwner ≠ []
  overwatch : isAnOverwatch accessToken.mEntityID = false
  system : accessToken.mIsSystem = false
  entity : accessToken.mEntityID ≠ desc.mOwner
  friendly : accessToken.mFriendlyID ≠ desc.mOwner
  poll : accessToken.mReqPerm.mOwnershipChange = true →
    (desc.mPollExt.bind fun pollExt => pollExt.winner sdm .ownershipChangeAccessRightsPoll) ≠
      some accessToken.mEntityID

/-- The call returns, and a stranger is not given the rights of the owner. -/
def OwnershipGuarded (isAnOverwatch : Bytes → Bool) (desc : CSecDescriptor)
    (accessToken : Option CAccessToken) (sdm : Option CStateDomainManager) (memory : Memory)
    (updateSecDesc : Bool) : Prop :=
  ∃ result, desc.getEffectiveRightsOf isAnOverwatch accessToken sdm memory updateSecDesc =
      some result ∧
    ∀ token ∈ accessToken, IsStranger isAnOverwatch desc token sdm →
      result.rights.mOwnership = false

theorem IsStranger.ownsAtEnd_eq_false_iff {isAnOverwatch : Bytes → Bool}
    (hstranger : IsStranger isAnOverwatch desc accessToken sdm) :
    desc.ownsAtEnd accessToken sdm = false ↔ desc.OwnershipOutOfReach accessToken sdm := by
  have hother : desc.isOwner accessToken = decide (accessToken.mEntityID = accessToken.mFriendlyID) := by
    simp [isOwner, hstranger.owned, hstranger.entity]
  rw [ownsAtEnd, hother, OwnershipOutOfReach]
  cases desc.loses accessToken sdm .ownershipChangeAccessRightsPoll with
  | true => simp
  | false =>
      cases desc.wins accessToken sdm .ownershipChangeAccessRightsPoll with
      | true => simp
      | false => simp [hstranger.owned]

/-- Ownership is guarded exactly when there is a token, no section dereferences a null pointer, and
the rights of the owner are out of every stranger's reach. -/
theorem ownershipGuarded_iff (isAnOverwatch : Bytes → Bool) (desc : CSecDescriptor)
    (accessToken : Option CAccessToken) (sdm : Option CStateDomainManager) (memory : Memory)
    (updateSecDesc : Bool) :
    desc.OwnershipGuarded isAnOverwatch accessToken sdm memory updateSecDesc ↔
      ∃ token, accessToken = some token ∧
        (isAnOverwatch token.mEntityID = true ∨ desc.completes token sdm = true) ∧
        (IsStranger isAnOverwatch desc token sdm →
          desc.mFlags.mSysOnly = true ∨ desc.OwnershipOutOfReach token sdm) := by
  cases accessToken with
  | none => simp [OwnershipGuarded, getEffectiveRightsOf]
  | some token =>
      simp only [OwnershipGuarded, getEffectiveRightsOf, Option.bind_some, Option.mem_some_iff,
        Option.some_inj, exists_eq_left', forall_eq']
      cases hoverwatch : isAnOverwatch token.mEntityID with
      | true =>
          have hnot : ¬ IsStranger isAnOverwatch desc token sdm := by
            intro hstranger
            exact absurd (hoverwatch.symm.trans hstranger.overwatch) (by decide)
          simp [getEffectiveRights, hoverwatch, hnot]
      | false =>
          cases hsystem : token.mIsSystem with
          | true =>
              have hnot : ¬ IsStranger isAnOverwatch desc token sdm := by
                intro hstranger
                exact absurd (hsystem.symm.trans hstranger.system) (by decide)
              simp [getEffectiveRights, hoverwatch, hsystem, hnot, completes]
          | false =>
              cases hsysOnly : desc.mFlags.mSysOnly with
              | true => simp [getEffectiveRights, hoverwatch, hsystem, hsysOnly, completes]
              | false =>
                  cases hbreaks : desc.breaks token sdm with
                  | true =>
                      have hnone := getEffectiveRights_eq_none memory updateSecDesc hoverwatch
                        hsystem hsysOnly hbreaks
                      simp [hnone, completes, hsystem, hsysOnly, hbreaks]
                  | false =>
                      obtain ⟨result, hresult, hpermits⟩ := getEffectiveRights_permits memory
                        updateSecDesc hoverwatch hsystem hsysOnly hbreaks
                      have howner : result.rights.mOwnership = desc.ownsAtEnd token sdm := by
                        simpa [CEffectiveRights.permits] using
                          hpermits .ownershipChangeAccessRightsPoll
                      have hguarded : (IsStranger isAnOverwatch desc token sdm →
                          result.rights.mOwnership = false) ↔
                          (IsStranger isAnOverwatch desc token sdm →
                            desc.OwnershipOutOfReach token sdm) := by
                        rw [howner]
                        exact forall_congr' fun hstranger => hstranger.ownsAtEnd_eq_false_iff
                      simp [hresult, hguarded, completes, hsystem, hsysOnly, hbreaks]

/-- A caller whose friendly ID is its own ID. -/
theorem own_friendly_id_owns :
    ¬ ∀ (isAnOverwatch : Bytes → Bool) (desc : CSecDescriptor) (accessToken : Option CAccessToken)
      (sdm : Option CStateDomainManager) (memory : Memory) (updateSecDesc : Bool),
      desc.OwnershipGuarded isAnOverwatch accessToken sdm memory updateSecDesc := by
  intro hall
  let desc : CSecDescriptor := { mOwner := [1] }
  let accessToken : CAccessToken := { mEntityID := [2], mFriendlyID := [2] }
  have hstranger : IsStranger (fun _ => false) desc accessToken none :=
    ⟨by decide, rfl, rfl, by decide, by decide, by decide⟩
  obtain ⟨result, hresult, hguarded⟩ :=
    hall (fun _ => false) desc (some accessToken) none (fun _ => {}) false
  have howns : (desc.getEffectiveRightsOf (fun _ => false) (some accessToken) none (fun _ => {})
      false).map (fun result => result.rights.mOwnership) = some true := by
    decide
  rw [hresult, Option.map_some, hguarded accessToken rfl hstranger] at howns
  exact absurd howns (by decide)

/-- The caller has a stored entry that permits what the poll is about. -/
def storedPermits (desc : CSecDescriptor) (entityID : Bytes) (id : eSystemPollID) : Bool :=
  ((desc.getACEforEntity entityID).bind fun i => desc.mAccessEntries[i]?).any fun entry =>
    entry.mFlags.permits id

/-- A poll the caller wins takes effect. Every stored entry carries the assets, and that of the winner
the removal; a stored entry is not given writing or execution. A new entry is made by the poll won
last, and only for that one's permission: for the assets in place of the removal, which a new entry
has where the memory had it. -/
def carries (desc : CSecDescriptor) (accessToken : CAccessToken) (sdm : Option CStateDomainManager)
    (memory : Memory) : eSystemPollID → Bool
  | .spendingsAcessRightsPoll =>
      (desc.getACEforEntity accessToken.mEntityID).isSome ||
        desc.wins accessToken sdm .removalAccessRightsPoll ||
        !(desc.wins accessToken sdm .writeAccessRightsPoll ||
          desc.wins accessToken sdm .executeAccessRightsPoll)
  | .writeAccessRightsPoll =>
      desc.mFlags.mEveryoneWrite ||
        desc.storedPermits accessToken.mEntityID .writeAccessRightsPoll ||
        (desc.getACEforEntity accessToken.mEntityID).isNone &&
          !desc.wins accessToken sdm .executeAccessRightsPoll &&
          !desc.wins accessToken sdm .removalAccessRightsPoll
  | .executeAccessRightsPoll =>
      desc.mFlags.mEveryoneExecute ||
        desc.storedPermits accessToken.mEntityID .executeAccessRightsPoll ||
        (desc.getACEforEntity accessToken.mEntityID).isNone &&
          !desc.wins accessToken sdm .removalAccessRightsPoll
  | .removalAccessRightsPoll =>
      (desc.getACEforEntity accessToken.mEntityID).isSome ||
        (memory (some .removalAccessRightsPoll)).mRemoval
  | .ownershipChangeAccessRightsPoll => false

/-- What the new entry permits goes by the poll won last. -/
theorem newEntry_permits (memory : Memory) (entityID : Bytes) (last : Option eSystemPollID)
    (id : eSystemPollID) :
    (RightsState.newEntry memory entityID last).mFlags.permits id =
      match id with
      | .spendingsAcessRightsPoll => last ≠ some .writeAccessRightsPoll &&
          last ≠ some .executeAccessRightsPoll && last ≠ some .ownershipChangeAccessRightsPoll
      | .writeAccessRightsPoll => last = some .writeAccessRightsPoll
      | .ownershipChangeAccessRightsPoll => false
      | .executeAccessRightsPoll => last = some .executeAccessRightsPoll
      | .removalAccessRightsPoll => (memory last).mRemoval := by
  cases last with
  | none => cases id <;> rfl
  | some won => cases won <;> cases id <;> rfl

/-- A permission whose poll is won is granted where the poll takes effect. -/
theorem carries_of_wins {id : eSystemPollID} (hwins : desc.wins accessToken sdm id = true) :
    (decide (id ≠ .ownershipChangeAccessRightsPoll) &&
      (desc.mFlags.everyone id || desc.entryPermits accessToken sdm memory id)) =
      desc.carries accessToken sdm memory id := by
  unfold entryPermits carries storedPermits
  cases hstored : desc.getACEforEntity accessToken.mEntityID with
  | some i =>
      obtain ⟨entry, hat, -⟩ := exists_of_getACEforEntity hstored
      rw [Option.bind_some, hat]
      have hpermits := storedEntry_permits (desc.finalTally accessToken sdm) entry id
      rw [finalTally_won] at hpermits
      rw [Bool.eq_iff_iff]
      cases id <;> simp [CRTFlags.everyone, hpermits, hwins]
  | none =>
      rw [Option.bind_none, newEntry_permits, lastWon]
      cases id with
      | ownershipChangeAccessRightsPoll => rfl
      | removalAccessRightsPoll => simp [hwins, CRTFlags.everyone]
      | executeAccessRightsPoll =>
          cases desc.wins accessToken sdm .removalAccessRightsPoll <;>
            simp [hwins, CRTFlags.everyone]
      | writeAccessRightsPoll =>
          cases desc.wins accessToken sdm .removalAccessRightsPoll <;>
            cases desc.wins accessToken sdm .executeAccessRightsPoll <;>
            simp [hwins, CRTFlags.everyone]
      | spendingsAcessRightsPoll =>
          cases desc.wins accessToken sdm .removalAccessRightsPoll <;>
            cases desc.wins accessToken sdm .executeAccessRightsPoll <;>
            cases desc.wins accessToken sdm .writeAccessRightsPoll <;>
            simp [hwins, CRTFlags.everyone]

/-- The caller is neither an Overwatch nor the system, and the object is for everyone. -/
structure IsOrdinary (isAnOverwatch : Bytes → Bool) (desc : CSecDescriptor)
    (accessToken : CAccessToken) : Prop where
  overwatch : isAnOverwatch accessToken.mEntityID = false
  system : accessToken.mIsSystem = false
  sysOnly : desc.mFlags.mSysOnly = false

/-- The call returns, and every requested permission whose poll is active is granted exactly when the
caller is the winner of the poll. -/
def PollsDecide (isAnOverwatch : Bytes → Bool) (desc : CSecDescriptor) (accessToken : CAccessToken)
    (sdm : Option CStateDomainManager) (memory : Memory) (updateSecDesc : Bool) : Prop :=
  ∃ result, desc.getEffectiveRights isAnOverwatch accessToken sdm memory updateSecDesc =
      some result ∧
    ∀ id, accessToken.mReqPerm.requests id = true →
      ∀ pollExt ∈ desc.mPollExt, pollExt.active id = true →
        (result.rights.permits id = true ↔ pollExt.winner sdm id = some accessToken.mEntityID)

/-- No section dereferences a null pointer. For every requested permission whose poll is active, the
winner has the rights of the owner, or is taken for the winner by a poll that takes effect; and
nobody else is or has. -/
def PollsDecisive (desc : CSecDescriptor) (accessToken : CAccessToken)
    (sdm : Option CStateDomainManager) (memory : Memory) : Prop :=
  desc.breaks accessToken sdm = false ∧
    ∀ id, accessToken.mReqPerm.requests id = true →
      ∀ pollExt ∈ desc.mPollExt, pollExt.active id = true →
        (desc.ownsAtEnd accessToken sdm = true ∨
            desc.wins accessToken sdm id = true ∧
              desc.carries accessToken sdm memory id = true ↔
          pollExt.winner sdm id = some accessToken.mEntityID)

/-- An active poll whose permission is requested turns the caller down unless it elects it. -/
theorem loses_of_active {pollExt : CPollFileElem} (hext : pollExt ∈ desc.mPollExt)
    {id : eSystemPollID} (hasked : accessToken.mReqPerm.requests id = true)
    (hactive : pollExt.active id = true) :
    desc.loses accessToken sdm id = !desc.wins accessToken sdm id := by
  rw [Option.mem_def] at hext
  simp [loses, wins, hasked, hext, CPollFileElem.turnsDown, hactive]

/-- The polls decide exactly when they are decisive. -/
theorem pollsDecide_iff (isAnOverwatch : Bytes → Bool) (desc : CSecDescriptor)
    (accessToken : CAccessToken) (sdm : Option CStateDomainManager) (memory : Memory)
    (updateSecDesc : Bool) :
    (IsOrdinary isAnOverwatch desc accessToken →
        desc.PollsDecide isAnOverwatch accessToken sdm memory updateSecDesc) ↔
      (IsOrdinary isAnOverwatch desc accessToken → desc.PollsDecisive accessToken sdm memory) := by
  apply forall_congr'
  rintro ⟨hoverwatch, hsystem, hsysOnly⟩
  cases hbreaks : desc.breaks accessToken sdm with
  | true =>
      have hnone := getEffectiveRights_eq_none memory updateSecDesc hoverwatch hsystem hsysOnly
        hbreaks
      simp [PollsDecide, PollsDecisive, hnone, hbreaks]
  | false =>
      obtain ⟨result, hresult, hpermits⟩ :=
        getEffectiveRights_permits memory updateSecDesc hoverwatch hsystem hsysOnly hbreaks
      have hgranted (id : eSystemPollID) (hasked : accessToken.mReqPerm.requests id = true)
          (pollExt : CPollFileElem) (hext : pollExt ∈ desc.mPollExt)
          (hactive : pollExt.active id = true) :
          result.rights.permits id = true ↔ desc.ownsAtEnd accessToken sdm = true ∨
            desc.wins accessToken sdm id = true ∧
              desc.carries accessToken sdm memory id = true := by
        rw [hpermits, loses_of_active hext hasked hactive, Bool.not_not, Bool.or_eq_true]
        apply or_congr_right
        cases hwins : desc.wins accessToken sdm id with
        | false => simp
        | true =>
            rw [Bool.and_true, carries_of_wins hwins]
            simp
      constructor
      · rintro ⟨result', hresult', hdecide⟩
        cases hresult.symm.trans hresult'
        refine ⟨hbreaks, fun id hasked pollExt hext hactive => ?_⟩
        exact (hgranted id hasked pollExt hext hactive).symm.trans
          (hdecide id hasked pollExt hext hactive)
      · rintro ⟨-, hdecisive⟩
        refine ⟨result, hresult, fun id hasked pollExt hext hactive => ?_⟩
        exact (hgranted id hasked pollExt hext hactive).trans
          (hdecisive id hasked pollExt hext hactive)

/-- The owner of an object, and an active spendings poll that has not triggered. -/
theorem owner_spends_against_poll :
    ¬ ∀ (isAnOverwatch : Bytes → Bool) (desc : CSecDescriptor) (accessToken : CAccessToken)
      (sdm : Option CStateDomainManager) (memory : Memory) (updateSecDesc : Bool),
      IsOrdinary isAnOverwatch desc accessToken →
        desc.PollsDecide isAnOverwatch accessToken sdm memory updateSecDesc := by
  intro hall
  let pollExt : CPollFileElem :=
    { mPolls := [{ mLocalPollElemID := 4, mRequiredScoring := 1, mFlags := { mActive := true },
                   mFileElem := true }] }
  let desc : CSecDescriptor := { mPollExt := some pollExt, mOwner := [1] }
  let accessToken : CAccessToken := { mReqPerm := { mSpending := true }, mEntityID := [1] }
  obtain ⟨result, hresult, hdecide⟩ :=
    hall (fun _ => false) desc accessToken (some fun _ => none) (fun _ => {}) false ⟨rfl, rfl, rfl⟩
  have hspends : (desc.getEffectiveRights (fun _ => false) accessToken (some fun _ => none)
      (fun _ => {}) false).map (fun result => result.rights.permits .spendingsAcessRightsPoll) =
        some true := by
    decide
  have hwinner := hdecide .spendingsAcessRightsPoll rfl pollExt rfl (by decide)
  rw [hresult, Option.map_some, Option.some_inj] at hspends
  exact absurd (hwinner.mp hspends) (by decide)

end CSecDescriptor

end Gridnet
