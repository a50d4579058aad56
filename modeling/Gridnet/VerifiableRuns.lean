import Gridnet.LedgerFlow
import Gridnet.VerifiableProcessing

/-! `processVerifiables`: the loop over the verifiables of a block, which forms the block or verifies
against it. -/

namespace Gridnet

variable {Trie : Type}

/-- A block with its receipts for verifiables, which it keeps apart from those for transactions. -/
structure ReceiptedBlock extends RewardedBlock where
  verifiableReceipts : List CReceipt := []
  deriving DecidableEq, Repr

namespace ReceiptedBlock

/-- `getReceiptForVerifiable` of the header. -/
def getReceiptForVerifiable (block : ReceiptedBlock) (proofID : Bytes) : Option CReceipt :=
  block.verifiableReceipts.find? fun receipt => receipt.mVerifiableID = proofID

/-- `addVerifiable`, within its assertion. -/
def addVerifiable (block : ReceiptedBlock) (v : CVerifiable) : ReceiptedBlock :=
  { block with verifiables := block.verifiables ++ [v] }

end ReceiptedBlock

/-- What a run over verifiables changes: the block, the flow with the snapshots below its domains, the
receipts of the call and its own copy of `addToBlock`. -/
structure VerifiableFlow where
  block : ReceiptedBlock
  older : List Ledger := []
  toRewardState : RewardState
  receipts : List CReceipt := []
  addToBlock : Bool

/-- How a turn ends: the loop goes on, or the call returns `false`. -/
inductive VerifiableTurn where
  | proceed
  | reject
  deriving DecidableEq, Repr

namespace VerifiableFlow

/-- `stepBack(1)`: what the flow did since the last snapshot goes, the links and rewards stay. -/
def stepBack (flow : VerifiableFlow) : Except ProcessFault VerifiableFlow :=
  match flow.older.getLast? with
  | none => .error (.fault .assertion)
  | some ledger => .ok
      { flow with
        older := flow.older.dropLast
        toRewardState := { flow.toRewardState with ledger } }

end VerifiableFlow

/-- The types of verifiables that the loop lets through. -/
def legalVerifiable (block : ReceiptedBlock) (verType : eVerifiableType) : Bool :=
  if block.isKeyBlock then
    if block.height = 0 then verType = .GenesisRewards ∨ verType = .minerReward
    else verType = .minerReward
  else true

def PoolVerifiable.markAsProcessed (v : PoolVerifiable) : PoolVerifiable :=
  { v with HotProperties := { v.HotProperties with markedAsProcessed := true } }

/-- The marks of a verifiable that could not be processed. -/
def PoolVerifiable.markAsInvalid (v : PoolVerifiable) : PoolVerifiable :=
  { v with
    HotProperties := { v.HotProperties with markedAsInvalid := true }
    coldInvalid := true }

section Turns

variable (S : RewardServices Trie) (mode : ProcessingMode) (chain : ChainView) (keyHeight : UInt64)

/-- The receipt that the block has for a verifiable; a block that is formed has none yet. -/
def blockReceiptForVerifiable (block : ReceiptedBlock) (v : CVerifiable) : Option CReceipt :=
  if mode.verifyAgainstBlock then block.getReceiptForVerifiable (S.getHash v) else some {}

/-- The ID of the receipt: the block's, or a fresh one. -/
def receiptIDForVerifiable (blockReceipt : CReceipt) (v : CVerifiable) : Bytes :=
  if mode.verifyAgainstBlock then blockReceipt.mGUID else S.getReceiptIDForVerifiable v

/-- A turn after the verifiable was processed, with its receipt. When a block is formed, the first
verifiable that is invalid keeps all others out of it. -/
def afterProcessing (v : PoolVerifiable) (blockReceipt receipt : CReceipt) (flow : VerifiableFlow) :
    Except ProcessFault (VerifiableTurn × PoolVerifiable × VerifiableFlow) :=
  if mode.verifyAgainstBlock = true ∧ receipt.mResult ≠ blockReceipt.mResult then
    .ok (.reject, v, flow)
  else do
    let flow ← if receipt.mResult ≠ .valid then flow.stepBack else .ok flow
    let v := if receipt.mResult ≠ .valid ∧ mode.markAsProcessed = true then v.markAsInvalid else v
    let flow :=
      if mode.verifyAgainstBlock then { flow with receipts := flow.receipts ++ [blockReceipt] }
      else if receipt.mResult = .valid then { flow with receipts := flow.receipts ++ [receipt] }
      else { flow with addToBlock := false }
    .ok (.proceed, v, flow)

/-- A turn for a verifiable that is let through. -/
def judgeVerifiable (v : PoolVerifiable) (flow : VerifiableFlow) :
    Except ProcessFault (VerifiableTurn × PoolVerifiable × VerifiableFlow) :=
  match verifyActuateAndArm S.toVerifiableServices chain flow.toRewardState.mInFlowLinks
      flow.block.toRewardedBlock v.copied flow.toRewardState.rewardValidatedUpToNow with
  | .error e => .error (.fault e)
  | .ok none =>
      if mode.verifyAgainstBlock then .ok (.reject, v, flow)
      else .ok (.proceed, v, { flow with addToBlock := false })
  | .ok (some armed) =>
      match blockReceiptForVerifiable S mode flow.block v.toCVerifiable with
      | none => .ok (.reject, v, flow)
      | some blockReceipt =>
          match processVerifiable S chain keyHeight flow.block.toRewardedBlock armed
              (receiptIDForVerifiable S mode blockReceipt v.toCVerifiable) flow.toRewardState with
          | .error e => .error e
          | .ok (receipt, toRewardState) =>
              afterProcessing mode v blockReceipt receipt { flow with toRewardState }

/-- The end of a turn: the verifiable is marked and added to the block. -/
def endOfTurn (v : PoolVerifiable) (flow : VerifiableFlow) : PoolVerifiable × VerifiableFlow :=
  (if mode.markAsProcessed then v.markAsProcessed else v,
    if flow.addToBlock then { flow with block := flow.block.addVerifiable v.toCVerifiable } else flow)

/-- A turn of the loop. -/
def verifiableTurn (v : PoolVerifiable) (flow : VerifiableFlow) :
    Except ProcessFault (VerifiableTurn × PoolVerifiable × VerifiableFlow) :=
  if v.HotProperties.markedAsProcessed then .ok (.proceed, v, flow)
  else if legalVerifiable flow.block v.mVerifiableType = false then .ok (.reject, v, flow)
  else
    match judgeVerifiable S mode chain keyHeight v flow with
    | .error e => .error e
    | .ok (.reject, v, flow) => .ok (.reject, v, flow)
    | .ok (.proceed, v, flow) => .ok (.proceed, endOfTurn mode v flow)

/-- The loop, and whether it was left by returning `false`. It is left early, too, once the manager is
asked to stop, which may be at any number of verifiables left. -/
def verifiableLoop (running : ℕ → Bool) : List PoolVerifiable → VerifiableFlow →
    Except ProcessFault (Bool × List PoolVerifiable × VerifiableFlow)
  | [], flow => .ok (true, [], flow)
  | v :: vs, flow =>
      if running vs.length then
        match verifiableTurn S mode chain keyHeight v flow with
        | .error e => .error e
        | .ok (.reject, v, flow) => .ok (false, v :: vs, flow)
        | .ok (.proceed, v, flow) =>
            match verifiableLoop running vs flow with
            | .error e => .error e
            | .ok (answer, vs, flow) => .ok (answer, v :: vs, flow)
      else .ok (true, v :: vs, flow)

/-- `processVerifiables`, with its answer and the verifiables with their marks. -/
def processVerifiables (running : ℕ → Bool) (incommingVerifiables : List PoolVerifiable)
    (flow : VerifiableFlow) : Except ProcessFault (Bool × List PoolVerifiable × VerifiableFlow) :=
  verifiableLoop S mode chain keyHeight running incommingVerifiables
    { flow with addToBlock := mode.addToBlock }

end Turns

end Gridnet
