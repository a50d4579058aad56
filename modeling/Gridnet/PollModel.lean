import Gridnet.Bytes

/-! The polling extension of a file: `PollElemFlags`, `CVoter`, `CPollElem` and `CPollFileElem`. The
stakes behind the votes come from the state domain manager, taken as the coins each identity has
consumed. -/

namespace Gridnet

/-- The state domain manager as polls use it: the coins consumed by the identity token of a domain,
where there are both. -/
abbrev CStateDomainManager := Bytes → Option BigInt

structure PollElemFlags where
  mActive : Bool := false
  mOneTime : Bool := false
  mFired : Bool := false
  mExclusiveGroup : Bool := false
  mCanCreatePollWithPermission : Bool := false
  mOnlySelectCanVote : Bool := false
  mAutoActions : Bool := false
  mNoInheritance : Bool := false
  mInherited : Bool := false
  deriving DecidableEq, Repr

namespace PollElemFlags

def getIsActive (flags : PollElemFlags) : Bool := flags.mActive

/-- The argument is not looked at. -/
def setIsActive (flags : PollElemFlags) (_isIt : Bool) : PollElemFlags :=
  { flags with mActive := true }

def getFired (flags : PollElemFlags) : Bool := flags.mFired

def getIsOneTime (flags : PollElemFlags) : Bool := flags.mOneTime

def getIsMemberOfExclusiveGroup (flags : PollElemFlags) : Bool := flags.mExclusiveGroup

end PollElemFlags

/-- A voter of level 1; of the voters of level 2 behind it only the IDs are looked at. -/
structure CVoter where
  mID : Bytes
  mDoNotCountPower : Bool := false
  mLevel2Voters : List Bytes := []
  deriving DecidableEq, Repr

/-- The score of a voter; voters of level 2 without a stake are skipped. -/
def CVoter.getScore (voter : CVoter) (sdm : CStateDomainManager) (onlySelf : Bool) : BigInt :=
  match sdm voter.mID with
  | none => 0
  | some coins =>
      let score := if voter.mDoNotCountPower then 0 else coins
      if onlySelf then score
      else voter.mLevel2Voters.foldl (fun score id => score + (sdm id).getD 0) score

/-- The polls the node knows by their local IDs. -/
inductive eSystemPollID where
  | writeAccessRightsPoll
  | executeAccessRightsPoll
  | ownershipChangeAccessRightsPoll
  | removalAccessRightsPoll
  | spendingsAcessRightsPoll
  deriving DecidableEq, Repr

def eSystemPollID.toID : eSystemPollID → UInt64
  | .writeAccessRightsPoll => 0
  | .executeAccessRightsPoll => 1
  | .ownershipChangeAccessRightsPoll => 2
  | .removalAccessRightsPoll => 3
  | .spendingsAcessRightsPoll => 4

/-- A poll. `mFileElem` says whether the weak pointer to the element that holds the poll is set. -/
structure CPollElem where
  mLocalPollElemID : UInt64
  mExclusiveGroupID : UInt64 := 0
  mRequiredScoring : BigInt := 0
  mFlags : PollElemFlags := {}
  mVoters : List CVoter := []
  mFileElem : Bool := false
  deriving DecidableEq, Repr

/-- The candidate a search has found best so far, and its score. -/
structure BestCandidate where
  id : Bytes := []
  score : BigInt := 0
  deriving DecidableEq, Repr

namespace CPollElem

def getFlags (poll : CPollElem) : PollElemFlags := poll.mFlags

def setFlags (poll : CPollElem) (flags : PollElemFlags) : CPollElem := { poll with mFlags := flags }

def addVoter (poll : CPollElem) (voter : CVoter) : CPollElem :=
  { poll with mVoters := poll.mVoters ++ [voter] }

def getExclusiveGroupID (poll : CPollElem) : UInt64 := poll.mExclusiveGroupID

def activate (poll : CPollElem) : Bool × CPollElem :=
  if poll.mFlags.getIsActive then (false, poll)
  else (true, { poll with mFlags := poll.mFlags.setIsActive true })

def deactivate (poll : CPollElem) : Bool × CPollElem :=
  if poll.mFlags.getIsActive = false then (false, poll)
  else (true, { poll with mFlags := poll.mFlags.setIsActive false })

/-- One more voter: a strictly higher score than the best so far takes its place. -/
def countVoter (sdm : CStateDomainManager) (acc : BigInt × BestCandidate) (voter : CVoter) :
    BigInt × BestCandidate :=
  let currentPeerScore := voter.getScore sdm false
  (acc.1 + currentPeerScore,
    if acc.2.score < currentPeerScore then ⟨voter.mID, currentPeerScore⟩ else acc.2)

/-- The total score; the best candidate so far comes in and goes out. -/
def getCurrentTotalScoring (poll : CPollElem) (sdm : CStateDomainManager) (best : BestCandidate) :
    BigInt × BestCandidate :=
  poll.mVoters.foldl (countVoter sdm) (0, best)

/-- Whether the poll triggers; the best candidate is updated whatever the answer. -/
def checkTrigger (poll : CPollElem) (sdm : Option CStateDomainManager) (best : BestCandidate) :
    Bool × BestCandidate :=
  match sdm with
  | none => (false, best)
  | some sdm =>
      let (currentScoring, best) := poll.getCurrentTotalScoring sdm best
      if poll.mFlags.getIsActive = false then (false, best)
      else if poll.mRequiredScoring ≤ currentScoring then
        (!(poll.mFlags.getFired && poll.mFlags.getIsOneTime), best)
      else (false, best)

/-- A poll of the exclusive group `groupID`. -/
def isMember (poll : CPollElem) (groupID : UInt64) : Bool :=
  poll.mFlags.getIsMemberOfExclusiveGroup && poll.getExclusiveGroupID = groupID

end CPollElem

structure CPollFileElem where
  mPolls : List CPollElem := []
  deriving DecidableEq, Repr

namespace CPollFileElem

def getPollWithLocalID (elem : CPollFileElem) (id : UInt64) : Option CPollElem :=
  elem.mPolls.find? fun poll => poll.mLocalPollElemID = id

/-- An update of one poll, reached through its shared pointer. -/
def modifyPoll (elem : CPollFileElem) (i : ℕ) (f : CPollElem → CPollElem) : CPollFileElem :=
  { elem with mPolls := elem.mPolls.modify i f }

/-- `deactivate` on all members of a group. -/
def deactivateGroup (elem : CPollFileElem) (groupID : UInt64) : CPollFileElem :=
  { elem with
    mPolls := elem.mPolls.map fun poll => if poll.isMember groupID then poll.deactivate.2 else poll }

def finalizeExclusiveGroup (elem : CPollFileElem) (groupID : UInt64) : Bool × CPollFileElem :=
  (elem.mPolls.any fun poll => poll.isMember groupID, elem.deactivateGroup groupID)

/-- `firePostTriggerActions` on the poll at an index; `none` where the source dereferences the null
pointer to a missing file element. `removal` is the answer of the removal of the object the poll is
about, where the arguments for it are given. -/
def firePostTriggerActions (elem : CPollFileElem) (poll : CPollElem) (removal : Option Bool) :
    Option (Bool × CPollFileElem) :=
  let toRet :=
    if poll.mFlags.mAutoActions ∧
        poll.mLocalPollElemID = eSystemPollID.removalAccessRightsPoll.toID then removal.getD true
    else true
  if poll.mFlags.getIsMemberOfExclusiveGroup then
    if poll.mFileElem then some (toRet, elem.deactivateGroup poll.getExclusiveGroupID) else none
  else some (toRet, elem)

end CPollFileElem
end Gridnet
