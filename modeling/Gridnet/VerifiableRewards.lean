import Gridnet.FraudPenalty
import Gridnet.VerifiableRuns

/-! What verifiables add to the reward of a block: the proofs of fraud their reward each, everything else nothing. -/

namespace Gridnet

variable {Trie : Type} {S : RewardServices Trie} {mode : ProcessingMode} {chain : ChainView} {keyHeight : UInt64}
  {receiptID : Bytes} {st st' : RewardState}

/-- What the verifier decides of a verifiable that is no operator's reward; of the block it only asks whether it is
the first one. -/
def acceptsVerifiable (S : VerifiableServices Trie) (chain : ChainView) (mInFlowLinks : List CLinkContainer)
    (isGenesis : Bool) (v : CVerifiable) : Except Fault Bool :=
  match v.mVerifiableType with
  | .proofOfFraud =>
      if v.verifySignature S = false then .ok false
      else
        match getPoFProof S v.mProof with
        | none => .ok false
        | some proof => verifyFraudulentKeyBlock S chain mInFlowLinks proof.kbHeader
  | .GenesisRewards => .ok (isGenesis && S.verifyGenesisFacts v.mProof)
  | _ => .ok false

theorem verifyActuateAndArm_plain {S : VerifiableServices Trie} {mInFlowLinks : List CLinkContainer}
    {block : RewardedBlock} {v : PoolVerifiable} {reward : BigInt} (htype : v.mVerifiableType ≠ .minerReward) :
    verifyActuateAndArm S chain mInFlowLinks block v reward =
      match acceptsVerifiable S chain mInFlowLinks block.isGenesis v.toCVerifiable with
      | .error e => .error e
      | .ok accepted => .ok (if accepted then some v.arm else none) := by
  unfold verifyActuateAndArm acceptsVerifiable
  cases hcase : v.mVerifiableType with
  | minerReward => exact absurd hcase htype
  | GenesisRewards => simp only [Bool.and_eq_true]
  | proofOfFraud =>
      unfold verifyProofOfFraud
      dsimp only
      split_ifs with hsigned
      · rfl
      · cases getPoFProof S v.mProof with
        | none => rfl
        | some proof => rfl
  | uncleBlock => rfl
  | dataPropagation => rfl
  | powerGeneration => rfl
  | powerTransit => rfl

/-- Arming leaves the verifiable as it is. -/
theorem toCVerifiable_of_verifyActuateAndArm {S : VerifiableServices Trie} {mInFlowLinks : List CLinkContainer}
    {block : RewardedBlock} {v armed : PoolVerifiable} {reward : BigInt}
    (haccepts : verifyActuateAndArm S chain mInFlowLinks block v reward = .ok (some armed)) :
    armed.toCVerifiable = v.toCVerifiable := by
  by_cases htype : v.mVerifiableType = .minerReward
  · rw [verifyActuateAndArm, htype] at haccepts
    have hverified := Except.ok.inj haccepts
    unfold verifyMinerReward at hverified
    split at hverified
    case h_2 => cases hverified
    case h_1 =>
      split_ifs at hverified
      · cases hverified
        rfl
      · cases hverified
        rfl
      · cases hverified
        rfl
  · rw [verifyActuateAndArm_plain htype] at haccepts
    split at haccepts
    case h_1 => cases haccepts
    case h_2 =>
      split_ifs at haccepts
      · cases haccepts
        rfl
      · cases haccepts

/-- Nothing was changed but the domains and what was paid to the operator. -/
structure RewardState.OnlyPays (st st' : RewardState) : Prop where
  reward : st'.rewardValidatedUpToNow = st.rewardValidatedUpToNow
  links : st'.mInFlowLinks = st.mInFlowLinks

theorem RewardState.OnlyPays.refl (st : RewardState) : st.OnlyPays st := ⟨rfl, rfl⟩

theorem RewardState.OnlyPays.trans {st st' st'' : RewardState} (h : st.OnlyPays st') (h' : st'.OnlyPays st'') :
    st.OnlyPays st'' :=
  ⟨h'.reward.trans h.reward, h'.links.trans h.links⟩

theorem payReward_onlyPays {block : RewardedBlock} {locals : RewardLocals} {change : BalanceChange}
    {step : RewardStep RewardLocals} (hpay : payReward S block receiptID locals change st = .ok (step, st')) :
    st.OnlyPays st' := by
  unfold payReward at hpay
  split_ifs at hpay with hoperator
  · cases hpay
    exact .refl _
  · split at hpay
    case h_1 => cases hpay
    case h_2 =>
      dsimp only at hpay
      split at hpay
      case h_1 =>
        cases hpay
        exact ⟨rfl, rfl⟩
      case h_2 =>
        split_ifs at hpay with hagrees
        · cases hpay
          exact ⟨rfl, rfl⟩
        · split at hpay
          case h_1 => cases hpay
          case h_2 =>
            split at hpay
            case h_1 => cases hpay
            case h_2 =>
              cases hpay
              exact ⟨rfl, rfl⟩
            case h_3 =>
              cases hpay
              exact ⟨rfl, rfl⟩

theorem payRewards_onlyPays {block : RewardedBlock} {locals : RewardLocals} {changes : List BalanceChange}
    {result : eTransactionValidationResult}
    (hpay : payRewards S block receiptID locals changes st = .ok (result, st')) : st.OnlyPays st' := by
  induction changes generalizing locals st with
  | nil =>
      cases hpay
      exact .refl _
  | cons change changes ih =>
      unfold payRewards at hpay
      split at hpay
      case h_1 => cases hpay
      case h_2 hturn =>
        cases hpay
        exact payReward_onlyPays hturn
      case h_3 hturn => exact (payReward_onlyPays hturn).trans (ih hpay)

/-- A verifiable that is no proof of fraud adds neither to the reward nor to the links. -/
theorem processVerifiable_onlyPays {block : RewardedBlock} {ver : PoolVerifiable} {receipt : CReceipt}
    (htype : ver.mVerifiableType ≠ .proofOfFraud)
    (hprocess : processVerifiable S chain keyHeight block ver receiptID st = .ok (receipt, st')) :
    st.OnlyPays st' := by
  unfold processVerifiable at hprocess
  dsimp only at hprocess
  split at hprocess
  case h_1 => cases hprocess
  case h_2 result st'' hresult =>
    cases hprocess
    unfold verifiableResult at hresult
    split_ifs at hresult with htreasury hallowed
    · cases hresult
      exact .refl _
    · cases hresult
      exact .refl _
    · split at hresult
      case h_1 => cases hresult
      case h_2 =>
        cases hresult
        exact .refl _
      case h_3 armed harmed =>
        split_ifs at hresult with hisArmed
        have hsame : armed.mVerifiableType = ver.mVerifiableType :=
          congrArg CVerifiable.mVerifiableType
            (toCVerifiable_of_verifyActuateAndArm harmed : _ = ver.copied.toCVerifiable)
        unfold issueVerifiable at hresult
        split at hresult
        case h_1 => exact payRewards_onlyPays hresult
        case h_2 hfraud => exact absurd (hsame.symm.trans hfraud) htype
        case h_3 =>
          cases hissued : S.issueGenesisRewards _ st.ledger with
          | error e =>
              rw [hissued] at hresult
              cases hresult
          | ok outcome =>
              rw [hissued] at hresult
              cases hresult
              exact ⟨rfl, rfl⟩
        case h_4 => cases hresult; exact .refl _
        case h_5 => cases hresult; exact .refl _
        case h_6 => cases hresult; exact .refl _
        case h_7 => cases hresult; exact .refl _

/-- Only a valid proof of fraud adds to the reward. -/
theorem processVerifiable_reward {block : RewardedBlock} {ver : PoolVerifiable} {receipt : CReceipt}
    (hprocess : processVerifiable S chain keyHeight block ver receiptID st = .ok (receipt, st')) :
    st'.rewardValidatedUpToNow = st.rewardValidatedUpToNow ∨
      ver.mVerifiableType = .proofOfFraud ∧ receipt.mResult = .valid ∧
        st'.rewardValidatedUpToNow = st.rewardValidatedUpToNow + S.getRewardForPoFProcessing := by
  by_cases htype : ver.mVerifiableType = .proofOfFraud
  · rcases processVerifiable_fraud htype hprocess with ⟨-, rfl⟩ | ⟨hvalid, proof, domain, -, hsettled⟩
    · exact .inl rfl
    · exact .inr ⟨htype, hvalid, hsettled.reward⟩
  · exact .inl (processVerifiable_onlyPays htype hprocess).reward

/-! ### Turns -/

variable {v v' : PoolVerifiable} {flow flow' : VerifiableFlow}

theorem stepBack_onlyPays (hback : flow.stepBack = .ok flow') : flow.toRewardState.OnlyPays flow'.toRewardState := by
  unfold VerifiableFlow.stepBack at hback
  split at hback
  case h_1 => cases hback
  case h_2 =>
    cases hback
    exact ⟨rfl, rfl⟩

theorem afterProcessing_valid {blockReceipt receipt : CReceipt} (hvalid : receipt.mResult = .valid) :
    afterProcessing mode v blockReceipt receipt flow =
      if mode.verifyAgainstBlock = true ∧ receipt.mResult ≠ blockReceipt.mResult then .ok (.reject, v, flow)
      else .ok (.proceed, v, { flow with
        receipts := flow.receipts ++ [if mode.verifyAgainstBlock then blockReceipt else receipt] }) := by
  unfold afterProcessing
  simp only [hvalid, ne_eq, not_true_eq_false, false_and, if_false, if_true]
  split_ifs <;> rfl

theorem afterProcessing_invalid {blockReceipt receipt : CReceipt} (hinvalid : receipt.mResult ≠ .valid) :
    afterProcessing mode v blockReceipt receipt flow =
      if mode.verifyAgainstBlock = true ∧ receipt.mResult ≠ blockReceipt.mResult then .ok (.reject, v, flow)
      else
        match flow.stepBack with
        | .error e => .error e
        | .ok flow => .ok (.proceed, if mode.markAsProcessed then v.markAsInvalid else v,
            if mode.verifyAgainstBlock then { flow with receipts := flow.receipts ++ [blockReceipt] }
            else { flow with addToBlock := false }) := by
  unfold afterProcessing
  simp only [hinvalid, ne_eq, not_false_iff, true_and, if_true, if_false]
  split_ifs
  · rfl
  all_goals
    cases flow.stepBack with
    | error e => rfl
    | ok back => rfl

theorem afterProcessing_onlyPays {blockReceipt receipt : CReceipt} {turn : VerifiableTurn}
    (hafter : afterProcessing mode v blockReceipt receipt flow = .ok (turn, v', flow')) :
    flow.toRewardState.OnlyPays flow'.toRewardState := by
  by_cases hvalid : receipt.mResult = .valid
  · rw [afterProcessing_valid hvalid] at hafter
    split_ifs at hafter <;> (cases hafter; exact .refl _)
  · rw [afterProcessing_invalid hvalid] at hafter
    split_ifs at hafter
    · cases hafter
      exact .refl _
    all_goals
      split at hafter
      · cases hafter
      · rename_i back hback
        cases hafter
        exact (stepBack_onlyPays hback :)

theorem endOfTurn_state (v : PoolVerifiable) (flow : VerifiableFlow) :
    (endOfTurn mode v flow).2.toRewardState = flow.toRewardState := by
  unfold endOfTurn
  split_ifs <;> rfl

/-- A turn adds the reward of one proof of fraud, or nothing. -/
theorem verifiableTurn_reward {turn : VerifiableTurn}
    (hturn : verifiableTurn S mode chain keyHeight v flow = .ok (turn, v', flow')) :
    flow'.toRewardState.rewardValidatedUpToNow = flow.toRewardState.rewardValidatedUpToNow ∨
      v.mVerifiableType = .proofOfFraud ∧ flow'.toRewardState.rewardValidatedUpToNow =
        flow.toRewardState.rewardValidatedUpToNow + S.getRewardForPoFProcessing := by
  have hjudge : ∀ {turn v' flow'}, judgeVerifiable S mode chain keyHeight v flow = .ok (turn, v', flow') →
      flow'.toRewardState.rewardValidatedUpToNow = flow.toRewardState.rewardValidatedUpToNow ∨
        v.mVerifiableType = .proofOfFraud ∧ flow'.toRewardState.rewardValidatedUpToNow =
          flow.toRewardState.rewardValidatedUpToNow + S.getRewardForPoFProcessing := by
    intro turn v' flow' hjudge
    unfold judgeVerifiable at hjudge
    split at hjudge
    case h_1 => cases hjudge
    case h_2 =>
      split_ifs at hjudge
      · cases hjudge
        exact .inl rfl
      · cases hjudge
        exact .inl rfl
    case h_3 armed harmed =>
      have hsame : armed.mVerifiableType = v.mVerifiableType :=
        congrArg CVerifiable.mVerifiableType
          (toCVerifiable_of_verifyActuateAndArm harmed : _ = v.copied.toCVerifiable)
      split at hjudge
      case h_1 =>
        cases hjudge
        exact .inl rfl
      case h_2 =>
        split at hjudge
        case h_1 => cases hjudge
        case h_2 hprocess =>
          rw [(afterProcessing_onlyPays hjudge).reward]
          exact (processVerifiable_reward hprocess).imp_right fun h => ⟨hsame ▸ h.1, h.2.2⟩
  unfold verifiableTurn at hturn
  split_ifs at hturn with hmarked hillegal
  · cases hturn
    exact .inl rfl
  · cases hturn
    exact .inl rfl
  · split at hturn
    case h_1 => cases hturn
    case h_2 hjudged =>
      cases hturn
      exact hjudge hjudged
    case h_3 judged judgedFlow hjudged =>
      obtain rfl : (endOfTurn mode judged judgedFlow).2 = flow' :=
        (Prod.mk.inj (Prod.mk.inj (Except.ok.inj hturn)).2).2
      rw [endOfTurn_state]
      exact hjudge hjudged

/-- A run adds the rewards of as many proofs of fraud as were valid. -/
theorem verifiableLoop_reward {running : ℕ → Bool} {vs vs' : List PoolVerifiable} {answer : Bool}
    (hloop : verifiableLoop S mode chain keyHeight running vs flow = .ok (answer, vs', flow')) :
    ∃ n ≤ vs.countP (·.mVerifiableType = .proofOfFraud), flow'.toRewardState.rewardValidatedUpToNow =
      flow.toRewardState.rewardValidatedUpToNow + BitVec.ofNat 256 n * S.getRewardForPoFProcessing := by
  have hnone : ∀ reward : BigInt, reward = reward + BitVec.ofNat 256 0 * S.getRewardForPoFProcessing := by
    intro reward
    rw [BitVec.zero_mul, BitVec.add_zero]
  induction vs generalizing flow answer vs' with
  | nil =>
      cases hloop
      exact ⟨0, Nat.zero_le _, hnone _⟩
  | cons v vs ih =>
      unfold verifiableLoop at hloop
      split_ifs at hloop with hrunning
      · split at hloop
        case h_1 => cases hloop
        case h_2 hturn =>
          cases hloop
          rcases verifiableTurn_reward hturn with hsame | ⟨htype, hreward⟩
          · exact ⟨0, Nat.zero_le _, by rw [hsame]; exact hnone _⟩
          · refine ⟨1, ?_, ?_⟩
            · rw [List.countP_cons_of_pos (by simpa using htype)]
              omega
            · rw [hreward, BitVec.one_mul]
        case h_3 hturn =>
          split at hloop
          case h_1 => cases hloop
          case h_2 hrest =>
            cases hloop
            obtain ⟨n, hn, hreward⟩ := ih hrest
            rcases verifiableTurn_reward hturn with hsame | ⟨htype, hmore⟩
            · rw [hsame] at hreward
              exact ⟨n, hn.trans (List.sublist_cons_self v vs).countP_le, hreward⟩
            · refine ⟨n + 1, ?_, ?_⟩
              · rw [List.countP_cons_of_pos (by simpa using htype)]
                omega
              · rw [hreward, hmore, BitVec.ofNat_add, BitVec.add_mul, BitVec.one_mul, BitVec.add_assoc,
                  BitVec.add_comm S.getRewardForPoFProcessing]
      · cases hloop
        exact ⟨0, Nat.zero_le _, hnone _⟩

end Gridnet
