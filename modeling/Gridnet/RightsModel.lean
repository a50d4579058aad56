import Gridnet.PollModel

/-! Access rights: the entries of a security descriptor, and the rights an access token has to the
object it protects. A constructor that leaves some bits of an entry's flags unwritten is given what
the memory held before. -/

namespace Gridnet

structure AEFlags where
  mRead : Bool := false
  mWrite : Bool := false
  mExecute : Bool := false
  mAssets : Bool := false
  mRemoval : Bool := false
  mIsPollPermission : Bool := false
  mOwnership : Bool := false
  mIsDynamicEntry : Bool := false
  deriving DecidableEq, Repr

namespace AEFlags

/-- The constructor from permissions; `mRemoval` and `mIsPollPermission` stay as they were in
`memory`. -/
def construct (memory : AEFlags) (write read execute assets ownership isDynamic : Bool) : AEFlags :=
  { memory with
    mWrite := write, mRead := read, mExecute := execute, mAssets := assets,
    mOwnership := ownership, mIsDynamicEntry := isDynamic }

def setIsDynamicEntry (flags : AEFlags) (isIt : Bool) : AEFlags :=
  { flags with mIsDynamicEntry := isIt }

def setOwner (flags : AEFlags) (isIt : Bool) : AEFlags := { flags with mOwnership := isIt }

def setWrite (flags : AEFlags) (allowed : Bool) : AEFlags := { flags with mWrite := allowed }

/-- The argument is not looked at. -/
def setAssets (flags : AEFlags) (_allowed : Bool) : AEFlags := { flags with mAssets := true }

def setExecute (flags : AEFlags) (allowed : Bool) : AEFlags := { flags with mExecute := allowed }

def setRemoval (flags : AEFlags) (allowed : Bool) : AEFlags := { flags with mRemoval := allowed }

end AEFlags

structure CAccessEntry where
  mSDID : Bytes
  mFlags : AEFlags
  mPollIDs : List UInt64 := []
  deriving DecidableEq, Repr

namespace CAccessEntry

/-- The constructor; the argument for the assets is dropped on the way to the flags. -/
def construct (memory : AEFlags) (sdID : Bytes) (write read execute _assets : Bool) :
    CAccessEntry :=
  { mSDID := sdID, mFlags := AEFlags.construct memory write read execute false false false }

/-- The constructor with the default permissions. -/
def constructDefault (memory : AEFlags) (sdID : Bytes) : CAccessEntry :=
  construct memory sdID false true false false

def setIsDynamic (entry : CAccessEntry) (isIt : Bool) : CAccessEntry :=
  { entry with mFlags := entry.mFlags.setIsDynamicEntry isIt }

def grantOwnership (entry : CAccessEntry) (doIt : Bool) : CAccessEntry :=
  { entry with mFlags := entry.mFlags.setOwner doIt }

def grantWrite (entry : CAccessEntry) (doIt : Bool) : CAccessEntry :=
  { entry with mFlags := entry.mFlags.setWrite doIt }

def grantExecute (entry : CAccessEntry) (doIt : Bool) : CAccessEntry :=
  { entry with mFlags := entry.mFlags.setExecute doIt }

def grantAssets (entry : CAccessEntry) (doIt : Bool) : CAccessEntry :=
  { entry with mFlags := entry.mFlags.setAssets doIt }

def grantRemoval (entry : CAccessEntry) (doIt : Bool) : CAccessEntry :=
  { entry with mFlags := entry.mFlags.setRemoval doIt }

def getIsPollAccessGranted (entry : CAccessEntry) (pollID : UInt64) : Bool :=
  entry.mPollIDs.contains pollID

end CAccessEntry

structure CRTFlags where
  mHasACL : Bool := false
  mEveryoneRead : Bool := false
  mEveryoneExecute : Bool := false
  mEveryoneWrite : Bool := false
  mSysOnly : Bool := false
  deriving DecidableEq, Repr

/-- Everyone reads and executes. -/
def CRTFlags.setDefaults : CRTFlags := { mEveryoneExecute := true, mEveryoneRead := true }

structure CSecDescriptor where
  mPollExt : Option CPollFileElem := none
  mFlags : CRTFlags := .setDefaults
  mImplicitOwner : Bytes := []
  mOwner : Bytes := []
  mAccessEntries : List CAccessEntry := []
  deriving DecidableEq, Repr

structure RequestedPermissions where
  mRead : Bool := true
  mWrite : Bool := true
  mExecute : Bool := true
  mRemoval : Bool := false
  mOwnershipChange : Bool := false
  mSpending : Bool := false
  mVoting : Bool := false
  deriving DecidableEq, Repr

/-- The token of an authenticated caller; `mFriendlyID` is given as bytes. -/
structure CAccessToken where
  mReqPerm : RequestedPermissions := {}
  mIsSystem : Bool := false
  mEntityID : Bytes
  mFriendlyID : Bytes := []
  mAccessedPolls : List UInt64 := []
  deriving DecidableEq, Repr

structure CEffectiveRights where
  mRead : Bool := true
  mWrite : Bool := false
  mExecute : Bool := true
  mOwnership : Bool := false
  mSpending : Bool := false
  mRemoval : Bool := false
  mVoting : Bool := false
  deriving DecidableEq, Repr

/-- Where an entry is constructed: in the voting section, or in the section of a system poll. -/
abbrev Memory := Option eSystemPollID → AEFlags

namespace CSecDescriptor

/-- The index of the first entry for an entity; the entry itself is shared with the caller. -/
def getACEforEntity (desc : CSecDescriptor) (sdID : Bytes) : Option ℕ :=
  desc.mAccessEntries.findIdx? fun entry => entry.mSDID = sdID

/-- The order in which the system polls are asked. -/
def systemPolls : List eSystemPollID :=
  [.spendingsAcessRightsPoll, .writeAccessRightsPoll, .ownershipChangeAccessRightsPoll,
    .executeAccessRightsPoll, .removalAccessRightsPoll]

/-- The grant a dynamic entry gets from the poll it stems from. -/
def grantDynamic : eSystemPollID → CAccessEntry → CAccessEntry
  | .spendingsAcessRightsPoll, entry => entry.grantAssets true
  | .writeAccessRightsPoll, entry => entry.grantWrite true
  | .ownershipChangeAccessRightsPoll, entry => entry.grantOwnership true
  | .executeAccessRightsPoll, entry => entry.grantExecute true
  | .removalAccessRightsPoll, entry => entry.grantRemoval true

/-- The permission of a poll goes to the entries of the winner, or to a new one. -/
def grantWinner (memory : Memory) (id : eSystemPollID) (winnerID : Bytes)
    (toRet : List CAccessEntry) : List CAccessEntry :=
  if toRet.any fun entry => entry.mSDID = winnerID then
    toRet.map fun entry => if entry.mSDID = winnerID then grantDynamic id entry else entry
  else
    toRet ++ [grantDynamic id
      ((CAccessEntry.constructDefault (memory (some id)) winnerID).setIsDynamic true)]

/-- The section of one system poll in `getDynamicACEEntries`. -/
def askPoll (pollExt : CPollFileElem) (sdm : Option CStateDomainManager) (memory : Memory)
    (acc : BestCandidate × List CAccessEntry) (id : eSystemPollID) :
    BestCandidate × List CAccessEntry :=
  match pollExt.getPollWithLocalID id.toID with
  | none => acc
  | some poll =>
      if poll.getFlags.getIsActive then
        let (triggered, winner) := poll.checkTrigger sdm acc.1
        (winner, if triggered then grantWinner memory id winner.id acc.2 else acc.2)
      else acc

/-- The entries that stem from the polls of the object. -/
def getDynamicACEEntries (desc : CSecDescriptor) (sdm : Option CStateDomainManager)
    (memory : Memory) : List CAccessEntry :=
  match desc.mPollExt with
  | none => []
  | some pollExt => (systemPolls.foldl (askPoll pollExt sdm memory) ({}, [])).2

end CSecDescriptor

namespace RequestedPermissions

/-- Whether the permission of a system poll is among the requested ones. -/
def requests (reqPerm : RequestedPermissions) : eSystemPollID → Bool
  | .spendingsAcessRightsPoll => reqPerm.mSpending
  | .writeAccessRightsPoll => reqPerm.mWrite
  | .ownershipChangeAccessRightsPoll => reqPerm.mOwnershipChange
  | .executeAccessRightsPoll => reqPerm.mExecute
  | .removalAccessRightsPoll => reqPerm.mRemoval

end RequestedPermissions

namespace CEffectiveRights

/-- The permission of a system poll is taken out of the rights. -/
def withhold (rights : CEffectiveRights) : eSystemPollID → CEffectiveRights
  | .spendingsAcessRightsPoll => { rights with mSpending := false }
  | .writeAccessRightsPoll => { rights with mWrite := false }
  | .ownershipChangeAccessRightsPoll => { rights with mOwnership := false }
  | .executeAccessRightsPoll => { rights with mExecute := false }
  | .removalAccessRightsPoll => { rights with mRemoval := false }

end CEffectiveRights

/-- The `ace` pointer of `getEffectiveRights`: an entry the descriptor stores, or a new one. -/
inductive AceRef where
  | stored (i : ℕ)
  | fresh (entry : CAccessEntry)
  deriving DecidableEq, Repr

/-- The variables of `getEffectiveRights` while the polls are asked. `best` is `winnerID` and
`winningScore`, `forceAbort` the force-abort flag of the permission of a poll. -/
structure RightsState where
  desc : CSecDescriptor
  ace : AceRef
  toRet : CEffectiveRights
  best : BestCandidate := {}
  forceAbort : eSystemPollID → Bool := fun _ => false
  votingForceAbort : Bool := false
  updateSecDesc : Bool := false

namespace RightsState

/-- The entry behind the pointer. -/
def aceEntry (st : RightsState) : Option CAccessEntry :=
  match st.ace with
  | .stored i => st.desc.mAccessEntries[i]?
  | .fresh entry => some entry

/-- What the winner of a poll is granted in an entry the descriptor stores already; the owner is
not entered there. -/
def grantStored : eSystemPollID → CAccessEntry → CAccessEntry
  | .spendingsAcessRightsPoll, entry => entry.grantAssets true
  | .writeAccessRightsPoll, entry => entry.grantAssets true
  | .ownershipChangeAccessRightsPoll, entry => entry
  | .executeAccessRightsPoll, entry => entry.grantAssets true
  | .removalAccessRightsPoll, entry => entry.grantRemoval true

/-- What the winner of a poll is granted in a new entry. -/
def grantFresh : eSystemPollID → CAccessEntry → CAccessEntry
  | .spendingsAcessRightsPoll, entry => entry.grantAssets true
  | .writeAccessRightsPoll, entry => entry.grantWrite true
  | .ownershipChangeAccessRightsPoll, entry => entry
  | .executeAccessRightsPoll, entry => entry.grantExecute true
  | .removalAccessRightsPoll, entry => entry.grantAssets true

/-- The caller is the one the poll elected. -/
def elect (st : RightsState) (memory : Memory) (entityID : Bytes) (id : eSystemPollID) :
    RightsState :=
  if id = .ownershipChangeAccessRightsPoll then
    { st with desc := { st.desc with mOwner := st.best.id }, updateSecDesc := true }
  else
    match st.desc.getACEforEntity entityID with
    | some i =>
        { st with
          desc := { st.desc with
            mAccessEntries := st.desc.mAccessEntries.modify i (grantStored id) }
          ace := .stored i
          updateSecDesc := true }
    | none =>
        { st with
          ace := .fresh (grantFresh id
            (CAccessEntry.constructDefault (memory (some id)) entityID))
          updateSecDesc := true }

/-- The poll elected nobody, or somebody else. -/
def refuse (st : RightsState) (id : eSystemPollID) : RightsState :=
  { st with toRet := st.toRet.withhold id, forceAbort := Function.update st.forceAbort id true }

/-- The section of one system poll; `none` where the source dereferences a null pointer. -/
def checkPoll (sdm : Option CStateDomainManager) (memory : Memory) (accessToken : CAccessToken)
    (st : RightsState) (id : eSystemPollID) : Option RightsState :=
  match st.desc.mPollExt with
  | none => some st
  | some pollExt =>
      if accessToken.mReqPerm.requests id = false then some st
      else
        match pollExt.getPollWithLocalID id.toID with
        | none => if id = .spendingsAcessRightsPoll then none else some st
        | some poll =>
            if poll.getFlags.getIsActive = false then some st
            else
              let (triggered, best) := poll.checkTrigger sdm st.best
              let st := { st with best := best }
              if triggered then
                match pollExt.firePostTriggerActions poll none with
                | none => none
                | some (_, pollExt) =>
                    let st := { st with desc := { st.desc with mPollExt := some pollExt } }
                    some (if accessToken.mEntityID = best.id then
                      st.elect memory accessToken.mEntityID id else st.refuse id)
              else some (st.refuse id)

end RightsState

namespace CSecDescriptor

/-- The explicit owner; without one, the implicit owner. -/
def isOwner (desc : CSecDescriptor) (accessToken : CAccessToken) : Bool :=
  if desc.mOwner ≠ [] then
    accessToken.mEntityID = desc.mOwner || accessToken.mEntityID = accessToken.mFriendlyID
  else desc.mImplicitOwner ≠ [] && accessToken.mEntityID = desc.mImplicitOwner

/-- A stored entry of the caller withholds the right to vote in a poll that is there. -/
def votingRefused (desc : CSecDescriptor) (accessToken : CAccessToken) : Bool :=
  match desc.mPollExt, (desc.getACEforEntity accessToken.mEntityID).bind
      fun i => desc.mAccessEntries[i]? with
  | some pollExt, some entry => accessToken.mAccessedPolls.any fun id =>
      (pollExt.getPollWithLocalID id).isSome && !entry.getIsPollAccessGranted id
  | _, _ => false

/-- `getEffectiveRights` up to the polls: the rights of everyone, and the voting section, which
grants the assets to the entry of every caller. -/
def beginRights (desc : CSecDescriptor) (accessToken : CAccessToken) (memory : Memory) :
    RightsState :=
  let toRet : CEffectiveRights :=
    { mRead := desc.mFlags.mEveryoneRead, mWrite := desc.mFlags.mEveryoneWrite,
      mExecute := desc.mFlags.mEveryoneExecute }
  match desc.getACEforEntity accessToken.mEntityID with
  | some i =>
      { desc := { desc with
          mAccessEntries := desc.mAccessEntries.modify i fun entry => entry.grantAssets true }
        ace := .stored i
        toRet := toRet
        votingForceAbort := desc.votingRefused accessToken }
  | none =>
      { desc := desc
        ace := .fresh ((CAccessEntry.constructDefault (memory none) accessToken.mEntityID).grantAssets
          true)
        toRet := toRet
        votingForceAbort := desc.votingRefused accessToken }

end CSecDescriptor

namespace RightsState

/-- The flags of the object extend the rights, where no poll aborted. -/
def extendByFlags (st : RightsState) : CEffectiveRights :=
  let crt := st.desc.mFlags
  { st.toRet with
    mRead := st.toRet.mRead || crt.mEveryoneRead
    mWrite := st.toRet.mWrite || !st.forceAbort .writeAccessRightsPoll && crt.mEveryoneWrite
    mExecute := st.toRet.mExecute ||
      !st.forceAbort .executeAccessRightsPoll && crt.mEveryoneExecute }

/-- The entry extends the rights, where no poll aborted. -/
def extendByEntry (st : RightsState) (toRet : CEffectiveRights) (entry : CAccessEntry) :
    CEffectiveRights :=
  let flags := entry.mFlags
  { toRet with
    mRead := toRet.mRead || flags.mRead
    mExecute := toRet.mExecute || !st.forceAbort .executeAccessRightsPoll && flags.mExecute
    mWrite := toRet.mWrite || !st.forceAbort .writeAccessRightsPoll && flags.mWrite
    mRemoval := toRet.mRemoval || !st.forceAbort .removalAccessRightsPoll && flags.mRemoval
    mSpending := toRet.mSpending || !st.forceAbort .spendingsAcessRightsPoll && flags.mAssets
    mVoting := toRet.mVoting || !st.votingForceAbort && flags.mIsPollPermission }

/-- `getEffectiveRights` after the polls: ownership, the flags of the object, the entry. -/
def concludeRights (st : RightsState) (accessToken : CAccessToken) : CEffectiveRights :=
  if st.forceAbort .ownershipChangeAccessRightsPoll = false ∧ st.desc.isOwner accessToken then
    { mRead := true, mWrite := true, mExecute := true, mOwnership := true, mSpending := true,
      mRemoval := true }
  else
    match st.aceEntry with
    | none => st.extendByFlags
    | some entry => st.extendByEntry st.extendByFlags entry

end RightsState

/-- What `getEffectiveRights` gives back: the rights, the descriptor it left behind and
`updateSecDesc`. -/
structure RightsResult where
  rights : CEffectiveRights
  desc : CSecDescriptor
  updateSecDesc : Bool
  deriving DecidableEq, Repr

namespace CSecDescriptor

/-- `none` where the source dereferences a null pointer. -/
def getEffectiveRights (isAnOverwatch : Bytes → Bool) (desc : CSecDescriptor)
    (accessToken : CAccessToken) (sdm : Option CStateDomainManager) (memory : Memory)
    (updateSecDesc : Bool) : Option RightsResult :=
  if isAnOverwatch accessToken.mEntityID then
    some ⟨⟨true, true, true, true, true, true, true⟩, desc, updateSecDesc⟩
  else
    let st := desc.beginRights accessToken memory
    if accessToken.mIsSystem then
      some ⟨⟨true, true, true, false, true, true, false⟩, st.desc, st.updateSecDesc⟩
    else if desc.mFlags.mSysOnly then
      some ⟨⟨true, false, true, false, false, false, false⟩, st.desc, st.updateSecDesc⟩
    else
      (systemPolls.foldlM (RightsState.checkPoll sdm memory accessToken) st).map fun st =>
        ⟨st.concludeRights accessToken, st.desc, st.updateSecDesc⟩

/-- Whether all requested permissions are among the effective ones; voting is not checked. -/
def getIsAllowed (isAnOverwatch : Bytes → Bool) (desc : CSecDescriptor) (accessToken : CAccessToken)
    (sdm : Option CStateDomainManager) (memory : Memory) (updateSecDesc : Bool) :
    Option (Bool × CSecDescriptor × Bool) :=
  (desc.getEffectiveRights isAnOverwatch accessToken sdm memory updateSecDesc).map fun result =>
    let reqPerm := accessToken.mReqPerm
    let effective := result.rights
    let allowed :=
      if reqPerm.mExecute && !effective.mExecute then false
      else if reqPerm.mRead && !effective.mRead then false
      else if reqPerm.mRemoval && !effective.mRemoval then false
      else if reqPerm.mSpending && !effective.mSpending then false
      else if reqPerm.mWrite && !effective.mWrite then false
      else if reqPerm.mOwnershipChange && !effective.mOwnership then false
      else true
    (allowed, result.desc, result.updateSecDesc)

end CSecDescriptor
end Gridnet
