import Gridnet.Machine
import Gridnet.PollModel

/-! Exclusive groups of polls. A file's polls are run as a machine over the operations that touch
their activity; beside the polls the machine keeps which of them were closed, so that "inactive from
here on" can be said of a whole run. `setIsActive` writes `true` whatever it is given, so closing a
poll leaves it as it is; what follows from that for a run is the result of this module. -/

namespace Gridnet

namespace CPollElem

/-- Deactivating a poll changes nothing in it. -/
theorem deactivate_snd (poll : CPollElem) : poll.deactivate.2 = poll := by
  unfold deactivate
  split_ifs with hactive
  · rfl
  · have hset : poll.mFlags.setIsActive false = poll.mFlags := by
      have hon : poll.mFlags.mActive = true := Bool.not_eq_false _ ▸ hactive
      rw [PollElemFlags.setIsActive, ← hon]
    show { poll with mFlags := poll.mFlags.setIsActive false } = poll
    rw [hset]

theorem deactivate_fst (poll : CPollElem) : poll.deactivate.1 = poll.getFlags.getIsActive := by
  unfold deactivate getFlags
  split_ifs with hactive
  · exact hactive.symm
  · exact (Bool.not_eq_false _ ▸ hactive).symm

/-- A poll that is not active does not trigger, whoever voted. -/
theorem checkTrigger_of_inactive {poll : CPollElem} (hoff : poll.getFlags.getIsActive = false)
    (sdm : Option CStateDomainManager) (best : BestCandidate) :
    (poll.checkTrigger sdm best).1 = false := by
  cases sdm with
  | none => rfl
  | some sdm =>
      have hflag : poll.mFlags.getIsActive = false := hoff
      simp only [checkTrigger, hflag, if_true]

end CPollElem

namespace CPollFileElem

theorem deactivateGroup_eq (elem : CPollFileElem) (groupID : UInt64) :
    elem.deactivateGroup groupID = elem := by
  have hpoll : (fun poll : CPollElem => if poll.isMember groupID then poll.deactivate.2 else poll)
      = id := by
    funext poll
    rw [CPollElem.deactivate_snd, ite_self, id]
  rw [deactivateGroup, hpoll, List.map_id]

theorem modifyPoll_deactivate (elem : CPollFileElem) (i : ℕ) :
    (elem.modifyPoll i fun poll => poll.deactivate.2) = elem := by
  have hpoll : (fun poll : CPollElem => poll.deactivate.2) = id := by
    funext poll
    exact poll.deactivate_snd
  rw [modifyPoll, hpoll, List.modify_id]

end CPollFileElem

/-- The operations on the polls of a file; a poll is named by its index. -/
inductive PollOp where
  | activate (i : ℕ)
  | deactivate (i : ℕ)
  | setFlags (i : ℕ) (flags : PollElemFlags)
  | addVoter (i : ℕ) (voter : CVoter)
  | firePostTriggerActions (i : ℕ) (removal : Option Bool)
  | finalizeExclusiveGroup (groupID : UInt64)

/-- The polls of a file, and which of them were closed: deactivated by a call that answered `true`,
or members of a group that was fired or finalized, and neither activated nor given flags since. -/
structure PollRun where
  elem : CPollFileElem
  closed : ℕ → Bool

namespace PollRun

/-- The polls of a file before any of the operations. -/
def opened (elem : CPollFileElem) : PollRun := ⟨elem, fun _ => false⟩

/-- The closed polls once the group `groupID` is closed as well. -/
def closeGroup (s : PollRun) (groupID : UInt64) : ℕ → Bool := fun j =>
  s.closed j || (s.elem.mPolls[j]?.any fun poll => poll.isMember groupID)

/-- One operation, with its answer; `none` where there is no such poll, or no file element. -/
def step (s : PollRun) : PollOp → Option Bool × PollRun
  | .activate i =>
      (s.elem.mPolls[i]?.map fun poll => poll.activate.1,
        ⟨s.elem.modifyPoll i fun poll => poll.activate.2, Function.update s.closed i false⟩)
  | .deactivate i =>
      let answer := s.elem.mPolls[i]?.map fun poll => poll.deactivate.1
      (answer,
        ⟨s.elem.modifyPoll i fun poll => poll.deactivate.2,
          if answer = some true then Function.update s.closed i true else s.closed⟩)
  | .setFlags i flags =>
      (some true,
        ⟨s.elem.modifyPoll i fun poll => poll.setFlags flags, Function.update s.closed i false⟩)
  | .addVoter i voter =>
      (some true, ⟨s.elem.modifyPoll i fun poll => poll.addVoter voter, s.closed⟩)
  | .firePostTriggerActions i removal =>
      match s.elem.mPolls[i]? with
      | none => (none, s)
      | some poll =>
          match s.elem.firePostTriggerActions poll removal with
          | none => (none, s)
          | some (ok, elem) =>
              (some ok,
                ⟨elem, if poll.mFlags.getIsMemberOfExclusiveGroup
                  then s.closeGroup poll.getExclusiveGroupID else s.closed⟩)
  | .finalizeExclusiveGroup groupID =>
      let (finalized, elem) := s.elem.finalizeExclusiveGroup groupID
      (some finalized, ⟨elem, if finalized then s.closeGroup groupID else s.closed⟩)

end PollRun

/-- What a closed poll owes: it is not active, does not trigger for any stakes and any best
candidate, and has nothing left to deactivate. -/
def CPollElem.Shut (poll : CPollElem) : Prop :=
  poll.getFlags.getIsActive = false ∧
    (∀ sdm best, (poll.checkTrigger sdm best).1 = false) ∧ poll.deactivate.1 = false

theorem CPollElem.shut_iff (poll : CPollElem) :
    poll.Shut ↔ poll.getFlags.getIsActive = false := by
  constructor
  · exact fun hshut => hshut.1
  · intro hoff
    exact ⟨hoff, poll.checkTrigger_of_inactive hoff, poll.deactivate_fst.trans hoff⟩

/-- No member of the group is active. -/
def CPollFileElem.GroupInactive (elem : CPollFileElem) (groupID : UInt64) : Prop :=
  ∀ poll ∈ elem.mPolls, poll.isMember groupID = true → poll.getFlags.getIsActive = false

namespace PollRun

/-- Every closed poll is shut. -/
def ClosedShut (s : PollRun) : Prop :=
  ∀ j poll, s.closed j = true → s.elem.mPolls[j]? = some poll → poll.Shut

/-- The operation has nothing to deactivate: the poll it deactivates, or every member of the group
it closes, is inactive before it. -/
def NothingActiveToClose (s : PollRun) : PollOp → Prop
  | .deactivate i => ∀ poll, s.elem.mPolls[i]? = some poll → poll.getFlags.getIsActive = false
  | .firePostTriggerActions i _ => ∀ poll, s.elem.mPolls[i]? = some poll →
      poll.mFlags.getIsMemberOfExclusiveGroup = true → poll.mFileElem = true →
        s.elem.GroupInactive poll.getExclusiveGroupID
  | .finalizeExclusiveGroup groupID => s.elem.GroupInactive groupID
  | _ => True

variable {s : PollRun}

/-- Closing a group keeps the closed polls shut exactly when no member was active. -/
theorem closedShut_closeGroup_iff (hs : s.ClosedShut) (groupID : UInt64) :
    (⟨s.elem, s.closeGroup groupID⟩ : PollRun).ClosedShut ↔ s.elem.GroupInactive groupID := by
  constructor
  · intro hclosed poll hpoll hmember
    obtain ⟨j, hj⟩ := List.mem_iff_getElem?.mp hpoll
    have hgroup : s.closeGroup groupID j = true := by
      simp only [closeGroup, hj, Option.any_some, hmember, Bool.or_true]
    exact (hclosed j poll hgroup hj).1
  · intro hgroup j poll hclosed hj
    rcases Bool.or_eq_true_iff.mp hclosed with hbefore | hmember
    · exact hs j poll hbefore hj
    · rw [hj, Option.any_some] at hmember
      exact (CPollElem.shut_iff poll).mpr (hgroup poll (List.mem_of_getElem? hj) hmember)

theorem closedShut_addVoter (hs : s.ClosedShut) (i : ℕ) (voter : CVoter) :
    (s.step (.addVoter i voter)).2.ClosedShut := by
  intro j poll hclosed hj
  rcases hbefore : s.elem.mPolls[j]? with _ | before
  · simp [step, CPollFileElem.modifyPoll, List.getElem?_modify, hbefore] at hj
  · have hflags : poll.getFlags = before.getFlags := by
      simp only [step, CPollFileElem.modifyPoll, List.getElem?_modify, hbefore, Option.map_eq_map,
        Option.map_some, Option.some_inj] at hj
      rw [← hj]
      split_ifs <;> rfl
    rw [CPollElem.shut_iff, hflags, ← CPollElem.shut_iff]
    exact hs j before hclosed hbefore

/-- An operation that reopens the poll it rewrites. -/
theorem closedShut_reopen (hs : s.ClosedShut) (i : ℕ) (f : CPollElem → CPollElem) :
    (⟨s.elem.modifyPoll i f, Function.update s.closed i false⟩ : PollRun).ClosedShut := by
  intro j poll hclosed hj
  by_cases hij : j = i
  · subst hij
    simp at hclosed
  · have hsame : s.elem.mPolls[j]? = some poll := by
      have hother := List.getElem?_modify_ne f (i := i) s.elem.mPolls (Ne.symm hij)
      exact hother.symm.trans hj
    exact hs j poll (by simpa [hij] using hclosed) hsame

theorem closedShut_deactivate_iff (hs : s.ClosedShut) (i : ℕ) :
    (s.step (.deactivate i)).2.ClosedShut ↔ s.NothingActiveToClose (.deactivate i) := by
  have hkept : (s.step (.deactivate i)).2.elem = s.elem := s.elem.modifyPoll_deactivate i
  constructor
  · intro hclosed poll hi
    cases hactive : poll.getFlags.getIsActive with
    | false => rfl
    | true =>
        have hanswer : (s.elem.mPolls[i]?.map fun poll => poll.deactivate.1) = some true := by
          rw [hi, Option.map_some, poll.deactivate_fst, hactive]
        have hmark : (s.step (.deactivate i)).2.closed i = true := by
          simp only [step, hanswer, if_true, Function.update_self]
        exact hactive.symm.trans (hclosed i poll hmark (hkept ▸ hi)).1
  · intro hnothing j poll hclosed hj
    rw [hkept] at hj
    have hanswer : (s.elem.mPolls[i]?.map fun poll => poll.deactivate.1) ≠ some true := by
      cases hi : s.elem.mPolls[i]? with
      | none => simp
      | some poll => simp [poll.deactivate_fst, hnothing poll hi]
    refine hs j poll ?_ hj
    simpa only [step, hanswer, if_false] using hclosed

theorem closedShut_fire_iff (hs : s.ClosedShut) (i : ℕ) (removal : Option Bool) :
    (s.step (.firePostTriggerActions i removal)).2.ClosedShut ↔
      s.NothingActiveToClose (.firePostTriggerActions i removal) := by
  cases hi : s.elem.mPolls[i]? with
  | none => simp [step, NothingActiveToClose, hi, hs]
  | some poll =>
      cases hmember : poll.mFlags.getIsMemberOfExclusiveGroup with
      | false =>
          simp [step, NothingActiveToClose, hi, CPollFileElem.firePostTriggerActions, hmember, hs]
      | true =>
          cases hfile : poll.mFileElem with
          | false =>
              simp [step, NothingActiveToClose, hi, CPollFileElem.firePostTriggerActions, hmember,
                hfile, hs]
          | true =>
              simp [step, NothingActiveToClose, hi, CPollFileElem.firePostTriggerActions, hmember,
                hfile, CPollFileElem.deactivateGroup_eq, closedShut_closeGroup_iff hs]

theorem closedShut_finalize_iff (hs : s.ClosedShut) (groupID : UInt64) :
    (s.step (.finalizeExclusiveGroup groupID)).2.ClosedShut ↔
      s.NothingActiveToClose (.finalizeExclusiveGroup groupID) := by
  cases hany : s.elem.mPolls.any fun poll => poll.isMember groupID with
  | true =>
      simp [step, NothingActiveToClose, CPollFileElem.finalizeExclusiveGroup, hany,
        CPollFileElem.deactivateGroup_eq, closedShut_closeGroup_iff hs]
  | false =>
      have hnone : s.elem.GroupInactive groupID := fun poll hpoll hmember =>
        absurd hmember (List.any_eq_false.mp hany poll hpoll)
      simp [step, NothingActiveToClose, CPollFileElem.finalizeExclusiveGroup, hany,
        CPollFileElem.deactivateGroup_eq, hs, hnone]

/-- One operation leaves the closed polls shut exactly when it had nothing to deactivate. -/
theorem closedShut_step_iff (hs : s.ClosedShut) (op : PollOp) :
    (s.step op).2.ClosedShut ↔ s.NothingActiveToClose op := by
  cases op with
  | activate i => exact iff_of_true (closedShut_reopen hs i _) trivial
  | deactivate i => exact closedShut_deactivate_iff hs i
  | setFlags i flags => exact iff_of_true (closedShut_reopen hs i _) trivial
  | addVoter i voter => exact iff_of_true (closedShut_addVoter hs i voter) trivial
  | firePostTriggerActions i removal => exact closedShut_fire_iff hs i removal
  | finalizeExclusiveGroup groupID => exact closedShut_finalize_iff hs groupID

theorem closedShut_opened (elem : CPollFileElem) : (opened elem).ClosedShut :=
  fun _ _ hclosed _ => absurd hclosed Bool.false_ne_true

/-- In a run of the operations every closed poll stays shut in every state exactly when no
operation of the run closed an active poll. -/
theorem closed_polls_shut_iff (elem : CPollFileElem) (ops : List PollOp) :
    Machine.EveryStep step (fun s op => (s.step op).2.ClosedShut) (opened elem) ops ↔
      Machine.EveryStep step NothingActiveToClose (opened elem) ops := by
  have hopened := closedShut_opened elem
  generalize opened elem = s at hopened
  induction ops generalizing s with
  | nil => exact Iff.rfl
  | cons op ops ih =>
      rw [Machine.everyStep_cons, Machine.everyStep_cons, closedShut_step_iff hopened]
      refine and_congr_right fun hnothing => ih _ ?_
      exact (closedShut_step_iff hopened op).mpr hnothing

/-- Two active polls in one exclusive group. -/
def exclusivePair : CPollFileElem :=
  let flags : PollElemFlags := { mActive := true, mExclusiveGroup := true }
  { mPolls := [
      { mLocalPollElemID := eSystemPollID.writeAccessRightsPoll.toID, mExclusiveGroupID := 7,
        mFlags := flags, mFileElem := true },
      { mLocalPollElemID := eSystemPollID.executeAccessRightsPoll.toID, mExclusiveGroupID := 7,
        mFlags := flags, mFileElem := true }] }

/-- Firing the first poll of the pair leaves the second one able to trigger. -/
theorem fired_group_not_shut :
    ¬ ∀ (elem : CPollFileElem) (ops : List PollOp),
      Machine.EveryStep step (fun s op => (s.step op).2.ClosedShut) (opened elem) ops := by
  intro hall
  obtain ⟨hclosed, -⟩ := hall exclusivePair [.firePostTriggerActions 0 none]
  have hshut := hclosed 1 exclusivePair.mPolls[1] (by decide) rfl
  exact absurd (hshut.2.1 (some fun _ => none) {}) (by decide)

end PollRun
end Gridnet
