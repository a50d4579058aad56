import Gridnet.EpochRewards
import Gridnet.VerifiableRuns

/-! The rewards of a block: what `formBlock` writes into the header and the verifiable of the operator, and
what the dry pass of `endFlow` computes for the same block. -/

namespace Gridnet

variable {Trie : Type}

/-- What the transactions of a block leave: the answer of `processTransactions`, the domains with the
snapshots below, the links of the flow, the receipts and the fees recorded on the way. -/
structure ProcessedTransactions where
  answer : Bool := true
  older : List Ledger := []
  ledger : Ledger
  mInFlowLinks : List CLinkContainer := []
  receipts : List CReceipt := []
  mTotalGNCFees : BigInt := 0

namespace ProcessedTransactions

/-- The fees as per the receipts. -/
def validatedFees (txs : ProcessedTransactions) : BigInt :=
  (txs.receipts.map CReceipt.fee).sum

/-- Where the verifiables begin. -/
def rewardState (txs : ProcessedTransactions) : RewardState where
  ledger := txs.ledger
  mInFlowLinks := txs.mInFlowLinks
  rewardValidatedUpToNow := txs.validatedFees

end ProcessedTransactions

/-- What the rewards of a block are computed from beside the block. `keyHeight` is that of the node, and
`running` whether the manager is not asked to stop, at any number of verifiables left, once for the
verifiables of the block and once for that of its operator. -/
structure RewardContext (Trie : Type) where
  S : RewardServices Trie
  settings : RewardSettings Trie
  bm : BlockLookup Trie
  chain : ChainView
  keyHeight : UInt64
  isDomainIDValid : Bytes → Bool
  running : ℕ → Bool
  runningForLeader : ℕ → Bool

/-- A call that may answer `false`, or not end, and the rest. -/
def onReward {α : Type} (run : Option (Except ProcessFault (Option BigInt)))
    (rest : Option BigInt → Option (Except ProcessFault α)) : Option (Except ProcessFault α) :=
  match run with
  | none => none
  | some (.error e) => some (.error e)
  | some (.ok reward) => rest reward

/-- A step that ends, and the rest. -/
def onResult {α β : Type} (run : Except ProcessFault α) (rest : α → Option (Except ProcessFault β)) :
    Option (Except ProcessFault β) :=
  match run with
  | .error e => some (.error e)
  | .ok a => rest a

section Flows

variable (context : RewardContext Trie) (fuel : ℕ) (live : LiveBlock Trie)

/-! ### Formation -/

/-- The mode of `formBlock`; verifiables are marked as processed unless the block is a phantom. -/
def formationRun (phantomMode : Bool) : ProcessingMode where
  markAsProcessed := !phantomMode
  addToBlock := true
  verifyAgainstBlock := false

/-- The epochs' processing of `formBlock`; `none` is `cantCalculatePastEpochReward`. -/
def formationEpochs (rewardValidatedUpToNow : BigInt) : Option (Except ProcessFault (Option BigInt)) :=
  onReward (getEpochReward context.bm context.settings fuel (some live) rewardValidatedUpToNow .ALeader)
    fun epoch1Reward =>
      match epoch1Reward with
      | none => some (.ok none)
      | some epoch1Reward =>
          let rewardValidatedUpToNow := rewardValidatedUpToNow + epoch1Reward
          onReward (getEpochReward context.bm context.settings fuel (some live) rewardValidatedUpToNow
              .BLeader)
            fun epoch2Reward => some (.ok (epoch2Reward.map (rewardValidatedUpToNow + ·)))

/-- The operator's reward as `formBlock` sets it up: the block with the rewards in its header, and the
verifiable; and the flow before that verifiable is processed. -/
structure FormedRewards where
  rewardValidatedUpToNow : BigInt
  leaderReward : CVerifiable
  proposal : ReceiptedBlock
  flow : VerifiableFlow

/-- The verifiable of the operator's reward. -/
def leaderRewardOf (minersID : Bytes) (rewardValidatedUpToNow : BigInt) : CVerifiable where
  mVerifiableType := .minerReward
  mAffectedDomains := [⟨minersID, rewardValidatedUpToNow.toNat⟩]

/-- The rewards in `formBlock`, from the fees to the header; `none` where no block is formed. -/
def formRewards (phantomMode : Bool) (proposal : ReceiptedBlock) (txs : ProcessedTransactions)
    (verifiablesToBeProcessed : List PoolVerifiable) :
    Option (Except ProcessFault (Option FormedRewards)) :=
  if txs.validatedFees ≠ txs.mTotalGNCFees then some (.error (.fault .assertion))
  else
    onResult (processVerifiables context.S (formationRun phantomMode) context.chain context.keyHeight
        context.running verifiablesToBeProcessed
        { block := proposal, older := txs.older, toRewardState := txs.rewardState, addToBlock := true })
      fun (_, _, flow) =>
        if proposal.isKeyBlock = false ∧ txs.receipts = [] ∧ flow.receipts = [] then some (.ok none)
        else
          onReward (formationEpochs context fuel live flow.toRewardState.rewardValidatedUpToNow) fun reward =>
            match reward with
            | none => some (.ok none)
            | some rewardValidatedUpToNow =>
                let minersID := proposal.mMinersID
                if context.isDomainIDValid minersID = false then some (.error (.fault .assertion))
                else
                  some (.ok (some
                    { rewardValidatedUpToNow
                      leaderReward := leaderRewardOf minersID rewardValidatedUpToNow
                      proposal :=
                        { flow.block with
                          toRewardedBlock := flow.block.toRewardedBlock.setRewards
                            context.S.toVerifiableServices rewardValidatedUpToNow }
                      flow }))

/-- The rest of the rewards in `formBlock`: the verifiable of the operator is processed, and the receipts go
into the block; `none` where formation is aborted. -/
def finishRewards (formed : FormedRewards) : Except ProcessFault (Option ReceiptedBlock) :=
  match processVerifiables context.S (formationRun true) context.chain context.keyHeight
      context.runningForLeader [{ toCVerifiable := formed.leaderReward }]
      { formed.flow with
        block := formed.proposal
        toRewardState :=
          { formed.flow.toRewardState with
            rewardValidatedUpToNow := formed.rewardValidatedUpToNow
            rewardIssuedToMinerAfterTAX := formed.proposal.mPaidToLeader } } with
  | .error e => .error e
  | .ok (answer, _, flow) =>
      if answer = false ∨ flow.block.verifiables = [] then .ok none
      else .ok (some { flow.block with verifiableReceipts := flow.receipts })

/-! ### The dry pass -/

/-- The mode of the dry pass. -/
def dryRun : ProcessingMode where
  markAsProcessed := false
  addToBlock := false
  verifyAgainstBlock := true

/-- The epochs' processing of `endFlow`: whether the flow goes on, and the reward up to then. -/
def flowEpochs (isKeyBlock : Bool) (rewardUptilNow : BigInt) :
    Option (Except ProcessFault (Bool × BigInt)) :=
  onReward (getEpochReward context.bm context.settings fuel (some live) rewardUptilNow .ALeader)
    fun epoch1Reward =>
      let rewardUptilNow := rewardUptilNow + epoch1Reward.getD 0
      if isKeyBlock then
        onReward (getEpochReward context.bm context.settings fuel (some live) rewardUptilNow .BLeader)
          fun epoch2Reward =>
            some (.ok (epoch1Reward.isSome && epoch2Reward.isSome,
              rewardUptilNow + epoch2Reward.getD 0))
      else some (.ok (epoch1Reward.isSome, rewardUptilNow))

/-- The dry pass up to the verifiable of the operator: whether all went well, the total reward, and the
flow. -/
structure ValidatedReward where
  success : Bool
  rewardUptilNow : BigInt
  flow : VerifiableFlow

/-- The verifiables of a block as they are added to the flow. -/
def inFlowVerifiables (block : ReceiptedBlock) : List PoolVerifiable :=
  block.verifiables.map fun v => { toCVerifiable := v }

/-- The dry pass of `endFlow` up to the verifiable of the operator. Whatever fails on the way, it goes on,
unless a transaction did. -/
def validateReward (block : ReceiptedBlock) (txs : ProcessedTransactions) :
    Option (Except ProcessFault ValidatedReward) :=
  let flow : VerifiableFlow :=
    { block, older := txs.older, toRewardState := txs.rewardState, addToBlock := false }
  let feesAgree := decide (txs.mTotalGNCFees = txs.validatedFees) || block.isCheckpointed
  let leads := (block.verifiables.getLast?).any fun v => v.mVerifiableType = .minerReward
  onResult (processVerifiables context.S dryRun context.chain context.keyHeight context.running
      (inFlowVerifiables block).dropLast flow)
    fun (answer, _, flow) =>
      match flowEpochs context fuel live block.isKeyBlock flow.toRewardState.rewardValidatedUpToNow with
      | none => none
      | some (.error e) => some (.error e)
      | some (.ok (ongoing, rewardUptilNow)) =>
          some (.ok
            { success := feesAgree && leads && answer && ongoing
              rewardUptilNow
              flow })

/-- The dry pass of `endFlow`: whether it succeeds, and the total reward. Without any verifiable it takes
the first element of an empty list. -/
def dryPass (block : ReceiptedBlock) (txs : ProcessedTransactions) :
    Option (Except ProcessFault (Bool × BigInt)) :=
  if txs.answer = false then some (.ok (false, 0))
  else
    match validateReward context fuel live block txs with
    | none => none
    | some (.error e) => some (.error e)
    | some (.ok validated) =>
        let leaderVerifiables := (inFlowVerifiables block).getLast?.toList
        onResult (processVerifiables context.S dryRun context.chain context.keyHeight
            context.runningForLeader leaderVerifiables
            { validated.flow with
              toRewardState :=
                { validated.flow.toRewardState with
                  rewardValidatedUpToNow := validated.rewardUptilNow } })
          fun (answer, _, _) =>
            if leaderVerifiables = [] then some (.error (.fault .outOfRange))
            else some (.ok (validated.success && answer, validated.rewardUptilNow))

end Flows

end Gridnet
