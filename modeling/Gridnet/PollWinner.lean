import Gridnet.BestScan
import Gridnet.PollModel

/-! Who wins a poll. The winner of a poll is the first of its own candidates with the highest score,
where that score is positive. The code asks several polls one after another and hands the best
candidate of one on to the next; what it then takes for the winner is the leader of all of them. -/

namespace Gridnet

open BestScan

/-- How far a record of the best candidate is ahead. -/
def BestCandidate.points (best : BestCandidate) : ℕ := best.score.toNat

/-- The record a candidate leaves; without a state domain manager nobody has a score. -/
def CVoter.standing (sdm : Option CStateDomainManager) (voter : CVoter) : BestCandidate :=
  ⟨voter.mID, (sdm.map fun sdm => voter.getScore sdm false).getD 0⟩

namespace CPollElem

variable (poll : CPollElem) (sdm : Option CStateDomainManager) (best : BestCandidate)

theorem foldl_countVoter_snd (sdm : CStateDomainManager) (voters : List CVoter)
    (acc : BigInt × BestCandidate) :
    (voters.foldl (countVoter sdm) acc).2 =
      voters.foldl (keepBest BestCandidate.points (CVoter.standing (some sdm))) acc.2 := by
  induction voters generalizing acc with
  | nil => rfl
  | cons voter voters ih => exact ih (countVoter sdm acc voter)

theorem foldl_countVoter_fst (sdm : CStateDomainManager) (voters : List CVoter)
    (total : BigInt) (best best' : BestCandidate) :
    (voters.foldl (countVoter sdm) (total, best)).1 =
      (voters.foldl (countVoter sdm) (total, best')).1 := by
  induction voters generalizing total best best' with
  | nil => rfl
  | cons voter voters ih => exact ih _ _ _

/-- Without stakes no candidate ever takes the lead. -/
theorem foldl_keepBest_none (voters : List CVoter) :
    voters.foldl (keepBest BestCandidate.points (CVoter.standing none)) best = best := by
  induction voters with
  | nil => rfl
  | cons voter voters ih => exact ih

/-- What `checkTrigger` answers for a total score. -/
def meetsTrigger (poll : CPollElem) (currentScoring : BigInt) : Bool :=
  poll.getFlags.getIsActive && decide (poll.mRequiredScoring ≤ currentScoring) &&
    !(poll.mFlags.getFired && poll.mFlags.getIsOneTime)

theorem checkTrigger_some (sdm : CStateDomainManager) :
    poll.checkTrigger (some sdm) best =
      (poll.meetsTrigger (poll.getCurrentTotalScoring sdm best).1,
        (poll.getCurrentTotalScoring sdm best).2) := by
  unfold checkTrigger meetsTrigger getFlags
  cases poll.mFlags.getIsActive with
  | false => simp
  | true =>
      by_cases hmet : poll.mRequiredScoring ≤ (poll.getCurrentTotalScoring sdm best).1
      · simp [hmet]
      · simp [hmet]

/-- The best candidate that comes out of `checkTrigger`. -/
theorem checkTrigger_snd :
    (poll.checkTrigger sdm best).2 =
      poll.mVoters.foldl (keepBest BestCandidate.points (CVoter.standing sdm)) best := by
  cases sdm with
  | none => exact (foldl_keepBest_none best poll.mVoters).symm
  | some sdm =>
      rw [checkTrigger_some]
      exact foldl_countVoter_snd sdm poll.mVoters (0, best)

/-- The answer does not depend on the best candidate that comes in. -/
theorem checkTrigger_fst (best' : BestCandidate) :
    (poll.checkTrigger sdm best).1 = (poll.checkTrigger sdm best').1 := by
  cases sdm with
  | none => rfl
  | some sdm =>
      have htotal := foldl_countVoter_fst sdm poll.mVoters 0 best best'
      rw [checkTrigger_some, checkTrigger_some]
      exact congrArg poll.meetsTrigger htotal

/-- The poll is active and triggered: its permission is about to be given to somebody. -/
def decides : Bool := poll.getFlags.getIsActive && (poll.checkTrigger sdm {}).1

/-- The winner of the poll: the first of its candidates with the highest score, when that score is
positive and the poll is active and triggered. -/
def ownWinner : Option CVoter :=
  if poll.decides sdm then
    (poll.mVoters.argmax (BestCandidate.points ∘ CVoter.standing sdm)).filter fun voter =>
      0 < (voter.standing sdm).points
  else none

end CPollElem

namespace CPollFileElem

variable (pollExt : CPollFileElem) (sdm : Option CStateDomainManager)

/-- The candidates of a system poll, where it is there and active. -/
def candidates (id : eSystemPollID) : List CVoter :=
  match pollExt.getPollWithLocalID id.toID with
  | none => []
  | some poll => if poll.getFlags.getIsActive then poll.mVoters else []

/-- The system poll is there and active. -/
def active (id : eSystemPollID) : Bool :=
  (pollExt.getPollWithLocalID id.toID).any fun poll => poll.getFlags.getIsActive

/-- The system poll is there, active and triggered. -/
def decided (id : eSystemPollID) : Bool :=
  (pollExt.getPollWithLocalID id.toID).any fun poll => poll.decides sdm

/-- The winner of a system poll. -/
def winner (id : eSystemPollID) : Option Bytes :=
  ((pollExt.getPollWithLocalID id.toID).bind fun poll => poll.ownWinner sdm).map CVoter.mID

/-- The candidates of the polls asked before `id`, when the polls are asked in the order `ids`. -/
def rivals (ids : List eSystemPollID) (id : eSystemPollID) : List CVoter :=
  (ids.takeWhile (· ≠ id)).flatMap pollExt.candidates

/-- The best candidate after the poll `id` was asked. -/
def leader (best : BestCandidate) (ids : List eSystemPollID) (id : eSystemPollID) : BestCandidate :=
  (pollExt.rivals ids id ++ pollExt.candidates id).foldl
    (keepBest BestCandidate.points (CVoter.standing sdm)) best

/-- The winner of the poll `id` holds against the polls asked before it: it has strictly more points
than each of their candidates, or is the very one that leads them. -/
def Prevails (ids : List eSystemPollID) (id : eSystemPollID) : Prop :=
  ∃ w, ((pollExt.getPollWithLocalID id.toID).bind fun poll => poll.ownWinner sdm) = some w ∧
    ∀ r, bestAbove BestCandidate.points (CVoter.standing sdm) {} (pollExt.rivals ids id) = some r →
      (r.standing sdm).points < (w.standing sdm).points ∨ r.mID = w.mID

variable {pollExt sdm}

theorem candidates_of_decided {id : eSystemPollID} (hdecided : pollExt.decided sdm id = true) :
    ∃ poll, pollExt.getPollWithLocalID id.toID = some poll ∧ poll.decides sdm = true ∧
      pollExt.candidates id = poll.mVoters := by
  unfold decided at hdecided
  cases hpoll : pollExt.getPollWithLocalID id.toID with
  | none => rw [hpoll] at hdecided; cases hdecided
  | some poll =>
      rw [hpoll, Option.any_some] at hdecided
      have hactive : poll.getFlags.getIsActive = true := (Bool.and_eq_true_iff.mp hdecided).1
      refine ⟨poll, rfl, hdecided, ?_⟩
      rw [candidates, hpoll]
      exact if_pos hactive

theorem decided_of_winner {id : eSystemPollID} {e : Bytes} (hwin : pollExt.winner sdm id = some e) :
    pollExt.decided sdm id = true := by
  unfold winner at hwin
  unfold decided
  cases hpoll : pollExt.getPollWithLocalID id.toID with
  | none => rw [hpoll] at hwin; cases hwin
  | some poll =>
      rw [hpoll] at hwin
      by_cases hdecides : poll.decides sdm = true
      · exact hdecides
      · simp [CPollElem.ownWinner, hdecides] at hwin

/-- The best of the candidates of a poll that was decided. -/
theorem bestAbove_candidates {id : eSystemPollID} (hdecided : pollExt.decided sdm id = true) :
    bestAbove BestCandidate.points (CVoter.standing sdm) {} (pollExt.candidates id) =
      (pollExt.getPollWithLocalID id.toID).bind fun poll => poll.ownWinner sdm := by
  obtain ⟨poll, hpoll, hdecides, hcandidates⟩ := candidates_of_decided hdecided
  rw [hpoll, hcandidates, Option.bind_some, CPollElem.ownWinner, if_pos hdecides]
  rfl

/-- The leader after a decided poll is the poll's own winner exactly when that winner prevails. -/
theorem winner_eq_leader_iff {ids : List eSystemPollID} {id : eSystemPollID}
    (hdecided : pollExt.decided sdm id = true) :
    pollExt.winner sdm id = some (pollExt.leader sdm {} ids id).id ↔ pollExt.Prevails sdm ids id := by
  have hbest := bestAbove_candidates hdecided
  cases hwin : (pollExt.getPollWithLocalID id.toID).bind fun poll => poll.ownWinner sdm with
  | none => simp [winner, Prevails, hwin]
  | some w =>
      rw [hwin] at hbest
      have hlead := foldl_append_name_iff BestCandidate.points (CVoter.standing sdm)
        BestCandidate.id (pollExt.rivals ids id) (pollExt.candidates id) hbest
      simp only [winner, Prevails, hwin, Option.map_some, Option.some_inj, leader,
        exists_eq_left']
      exact eq_comm.trans hlead

end CPollFileElem
end Gridnet
