import Gridnet.FraudLinks

/-! Flows, and the frauds they penalize: `startFlow`, what is processed in a flow, `endFlow` with a dry pass and one
that commits, and `abortFlow`, over the domains, the verifiables, the links and the marks in the pool. -/

namespace Gridnet

variable {Trie : Type}

/-! ### Links in storage -/

/-- The links of the solid storage, by type and key. -/
abbrev LinkStorage := eLinkType → Bytes → Option Bytes

/-- How the storage meets a write: it writes, it fails to, or it was told to abort all writes. -/
inductive LinkWrite where
  | written
  | failed
  | withheld
  deriving DecidableEq, Repr

namespace LinkStorage

/-- `loadLink`; an empty value counts as none. -/
def loadLink (saved : LinkStorage) (key : Bytes) (type : eLinkType) : Option Bytes :=
  (saved type key).filter fun value => value ≠ []

/-- `saveLink`. A write that is withheld pretends success. -/
def saveLink (write : LinkWrite) (link : CLinkContainer) (saved : LinkStorage) : Bool × LinkStorage :=
  if write = .withheld then (true, saved)
  else if link.mKey.length < 32 ∨ 35 < link.mKey.length then (false, saved)
  else if write = .failed then (false, saved)
  else (true, fun type key => if type = link.mType ∧ key = link.mKey then some link.mValue else saved type key)

/-- The loop of `endFlow` over the links of the flow, which ends with the first one that cannot be saved. -/
def saveLinks (write : ℕ → LinkWrite) : List CLinkContainer → LinkStorage → Bool × LinkStorage
  | [], saved => (true, saved)
  | link :: links, saved =>
      match saveLink (write 0) link saved with
      | (false, saved) => (false, saved)
      | (true, saved) => saveLinks (fun i => write (i + 1)) links saved

end LinkStorage

/-! ### Flows -/

/-- What `CTransactionManager` holds while a flow is open: the domains with their backup and the snapshots below, the
links and the verifiables; and the key blocks whose operators were penalized since the domains were the backup. -/
structure OpenFlow where
  mBackupStateDB : Ledger
  mInFlowInterDBs : List Ledger := []
  mFlowStateDB : Ledger
  mInFlowLinks : List CLinkContainer := []
  mInFlowVerifiables : List PoolVerifiable := []
  penalized : List Bytes := []

/-- What `processVerifiables` is handed beside the verifiables, and what it meets: the chain as the verifier sees it,
the key height, and whether the manager is not asked to stop. -/
structure VerifiableCall where
  mode : ProcessingMode
  chain : ChainView
  keyHeight : UInt64
  running : ℕ → Bool
  block : ReceiptedBlock
  rewardValidatedUpToNow : BigInt := 0
  rewardIssuedToMinerAfterTAX : BigInt := 0

/-- What a call of `processVerifiables` leaves. -/
structure ProcessedVerifiables where
  answer : Bool
  verifiables : List PoolVerifiable
  rewardValidatedUpToNow : BigInt
  rewardIssuedToMinerAfterTAX : BigInt
  flow : OpenFlow

namespace OpenFlow

variable (S : RewardServices Trie)

/-- `startFlow`, over the domains of a perspective that could be set. -/
def start (mFlowStateDB : Ledger) : OpenFlow where
  mBackupStateDB := mFlowStateDB
  mInFlowInterDBs := [mFlowStateDB]
  mFlowStateDB

def cleanupFlow (cleanInFlowTransactions revert : Bool) (f : OpenFlow) : OpenFlow :=
  { f with
    mInFlowInterDBs := []
    mInFlowLinks := []
    mFlowStateDB := if revert then f.mBackupStateDB else f.mFlowStateDB
    penalized := if revert then [] else f.penalized
    mInFlowVerifiables := if cleanInFlowTransactions then [] else f.mInFlowVerifiables }

/-- A flow behind its transactions, which leave links and verifiables alone. -/
def afterTransactions (txs : ProcessedTransactions) (f : OpenFlow) : OpenFlow :=
  { f with mInFlowInterDBs := txs.older, mFlowStateDB := txs.ledger }

/-- What the loop over verifiables works on. -/
def verifiableFlow (call : VerifiableCall) (f : OpenFlow) : VerifiableFlow where
  block := call.block
  older := f.mInFlowInterDBs
  toRewardState :=
    { ledger := f.mFlowStateDB
      mInFlowLinks := f.mInFlowLinks
      rewardValidatedUpToNow := call.rewardValidatedUpToNow
      rewardIssuedToMinerAfterTAX := call.rewardIssuedToMinerAfterTAX }
  addToBlock := call.mode.addToBlock

/-- `processVerifiables` in a flow. -/
def processVerifiables (call : VerifiableCall) (incommingVerifiables : List PoolVerifiable) (f : OpenFlow) :
    Except ProcessFault ProcessedVerifiables :=
  (Gridnet.processVerifiables S call.mode call.chain call.keyHeight call.running incommingVerifiables
    (f.verifiableFlow call)).map fun (answer, verifiables, flow) =>
      { answer
        verifiables
        rewardValidatedUpToNow := flow.toRewardState.rewardValidatedUpToNow
        rewardIssuedToMinerAfterTAX := flow.toRewardState.rewardIssuedToMinerAfterTAX
        flow :=
          { f with
            mInFlowInterDBs := flow.older
            mFlowStateDB := flow.toRewardState.ledger
            mInFlowLinks := flow.toRewardState.mInFlowLinks
            penalized := f.penalized ++ penalties S call.mode call.chain call.keyHeight call.running
              incommingVerifiables (f.verifiableFlow call) } }

end OpenFlow

/-! ### The end of a flow -/

/-- A call of `endFlow`: its arguments, and what it meets. The transactions of the flow may do to the domains
whatever they like; `context` has the `running` of the dry pass, and the other two are those of the one that commits. -/
structure FlowEnding (Trie : Type) where
  commit : Bool
  doInitialCleanUp : Bool := true
  blockProposal : ReceiptedBlock
  live : LiveBlock Trie
  context : RewardContext Trie
  fuel : ℕ
  transactions : (markAsProcessed : Bool) → Ledger → Except ProcessFault ProcessedTransactions
  getPerspective : Ledger → Bytes
  perspectiveConfirmed : Bool := true
  runningAgain : ℕ → Bool
  runningForLeaderAgain : ℕ → Bool
  write : ℕ → LinkWrite

/-- What the dry pass leaves: whether it succeeded, and the perspectives it came by. -/
structure DryPass where
  success : Bool
  perspectiveAfterTransactions : Bytes
  perspectiveAfterVerifiables : Bytes
  flow : OpenFlow

namespace FlowEnding

variable (S : RewardServices Trie) (chain : ChainView) (e : FlowEnding Trie)

/-- The mode of the pass that commits. -/
def commitRun : ProcessingMode where
  markAsProcessed := true
  addToBlock := false
  verifyAgainstBlock := true

/-- A call of `processVerifiables` from `endFlow`. -/
def call (mode : ProcessingMode) (running : ℕ → Bool) (rewardUptilNow rewardIssuedToMinerAfterTAX : BigInt) :
    VerifiableCall where
  mode
  chain
  keyHeight := e.context.keyHeight
  running
  block := e.blockProposal
  rewardValidatedUpToNow := rewardUptilNow
  rewardIssuedToMinerAfterTAX

/-- The epochs' processing, and the rest. -/
def onEpochs {α : Type} (rewardUptilNow : BigInt)
    (rest : Bool × BigInt → Option (Except ProcessFault α)) : Option (Except ProcessFault α) :=
  match flowEpochs e.context e.fuel e.live e.blockProposal.isKeyBlock rewardUptilNow with
  | none => none
  | some (.error err) => some (.error err)
  | some (.ok epochs) => rest epochs

/-- The dry pass. Whatever fails on the way, it goes on, unless a transaction did; without any verifiable it takes
the first element of an empty list in the end. -/
def dryPass (f : OpenFlow) : Option (Except ProcessFault DryPass) :=
  onResult (e.transactions false f.mFlowStateDB) fun txs =>
    let f := f.afterTransactions txs
    let perspectiveAfterTransactions := e.getPerspective f.mFlowStateDB
    if txs.answer = false then
      some (.ok ⟨false, perspectiveAfterTransactions, perspectiveAfterTransactions, f⟩)
    else
      let feesAgree := decide (txs.mTotalGNCFees = txs.validatedFees) || e.blockProposal.isCheckpointed
      let leads := (f.mInFlowVerifiables.getLast?).any fun v => v.mVerifiableType = .minerReward
      let leaderVerifiables := f.mInFlowVerifiables.getLast?.toList
      onResult (f.processVerifiables S (e.call chain dryRun e.context.running txs.validatedFees 0)
          f.mInFlowVerifiables.dropLast) fun first =>
        e.onEpochs first.rewardValidatedUpToNow fun (ongoing, rewardUptilNow) =>
          onResult (first.flow.processVerifiables S (e.call chain dryRun e.context.runningForLeader rewardUptilNow
              first.rewardIssuedToMinerAfterTAX) leaderVerifiables) fun last =>
            if leaderVerifiables = [] then some (.error (.fault .outOfRange))
            else some (.ok
              { success := feesAgree && leads && first.answer && ongoing && last.answer
                perspectiveAfterTransactions
                perspectiveAfterVerifiables := e.getPerspective last.flow.mFlowStateDB
                flow := { last.flow with mInFlowVerifiables := first.verifiables ++ last.verifiables } })

/-- The pass that commits, from the flow after its clean-up: whether it reports success, the links in storage, and the
flow. It ends with the first error, and the links are saved last. -/
def commitPass (dry : DryPass) (initialPerspective : Bytes) (saved : LinkStorage) (f : OpenFlow) :
    Option (Except ProcessFault (Bool × LinkStorage × OpenFlow)) :=
  if e.getPerspective f.mFlowStateDB ≠ initialPerspective then some (.ok (false, saved, f))
  else
    onResult (e.transactions true f.mFlowStateDB) fun txs =>
      let f := f.afterTransactions txs
      if e.getPerspective f.mFlowStateDB ≠ dry.perspectiveAfterTransactions then some (.ok (false, saved, f))
      else if (f.mInFlowVerifiables.getLast?).any (fun v => v.mVerifiableType ≠ .minerReward) then
        some (.ok (false, saved, f))
      else
        onResult (f.processVerifiables S (e.call chain commitRun e.runningAgain txs.validatedFees 0)
            f.mInFlowVerifiables.dropLast) fun first =>
          if first.answer = false then some (.ok (false, saved, first.flow))
          else
            e.onEpochs first.rewardValidatedUpToNow fun (ongoing, rewardUptilNow) =>
              onResult (first.flow.processVerifiables S (e.call chain commitRun e.runningForLeaderAgain rewardUptilNow
                  first.rewardIssuedToMinerAfterTAX) f.mInFlowVerifiables.getLast?.toList) fun last =>
                if last.answer = false then some (.ok (false, saved, last.flow))
                else if e.getPerspective last.flow.mFlowStateDB ≠ dry.perspectiveAfterVerifiables then
                  some (.ok (false, saved, last.flow))
                else
                  let (complete, saved) := saved.saveLinks e.write last.flow.mInFlowLinks
                  some (.ok (complete && ongoing, saved, last.flow))

/-- The clean-up that comes first, unless what the flow did so far is to be kept. -/
def initialCleanUp (f : OpenFlow) : OpenFlow := if e.doInitialCleanUp then f.cleanupFlow false true else f

/-- `endFlow` of an open flow: whether it reports success, the links in storage, and the key blocks whose operators
were penalized for good. A flow that is back at its first perspective has the penalties of then, too. -/
def endFlow (saved : LinkStorage) (f : OpenFlow) : Option (Except ProcessFault (Bool × LinkStorage × List Bytes)) :=
  let f := e.initialCleanUp f
  let initialPerspective := e.getPerspective f.mFlowStateDB
  let f := { f with mInFlowInterDBs := f.mInFlowInterDBs ++ [f.mFlowStateDB] }
  match e.dryPass S chain f with
  | none => none
  | some (.error err) => some (.error err)
  | some (.ok dry) =>
      if (e.commit && dry.success && e.perspectiveConfirmed) = false then some (.ok (dry.success, saved, []))
      else
        match e.commitPass S chain dry initialPerspective saved
            { dry.flow.cleanupFlow false e.doInitialCleanUp with penalized := f.penalized } with
        | none => none
        | some (.error err) => some (.error err)
        | some (.ok (success, saved, f)) => some (.ok (success, saved, if success then f.penalized else []))

end FlowEnding

/-! ### Runs -/

/-- What a node has of frauds: the links in storage, the verifiables in its pool, the key blocks whose operators were
penalized in what it committed, and the flow, if one is open. -/
structure FraudNode where
  saved : LinkStorage
  mMemPool : List PoolVerifiable := []
  penalized : List Bytes := []
  flow : Option OpenFlow := none

/-- What may happen: a verifiable comes into the pool or leaves it; a flow is started over the domains of a perspective,
if that can be set; transactions and verifiables are processed in it, those of the pool by their places; and
it ends. The chain is in each call what it is by then, but for the links, which are the node's. -/
inductive FlowEvent (Trie : Type) where
  | addToMemPool (v : CVerifiable)
  | deleteMemPoolObject (i : ℕ)
  | startFlow (perspective : Option Ledger)
  | addVerifiableToFlow (v : PoolVerifiable)
  | processTransactions (transactions : Ledger → Except ProcessFault ProcessedTransactions)
  | processMemPool (call : VerifiableCall) (unprocessed : List ℕ)
  | processVerifiables (call : VerifiableCall) (verifiables : List PoolVerifiable)
  | endFlow (e : FlowEnding Trie)
  | abortFlow

/-- The objects at some places of the pool, as they are by now. -/
def writeBack : List PoolVerifiable → List ℕ → List PoolVerifiable → List PoolVerifiable
  | pool, i :: is, v :: vs => writeBack (pool.set i v) is vs
  | pool, _, _ => pool

namespace FraudNode

variable (S : RewardServices Trie)

/-- The chain with the links of the node. -/
def chain (node : FraudNode) (view : ChainView) : ChainView := { view with loadLink := node.saved.loadLink }

/-- Some verifiables are processed, if there are any, within an assertion that a flow is open. -/
def process (node : FraudNode) (call : VerifiableCall) (verifiables : List PoolVerifiable) :
    Except ProcessFault (List PoolVerifiable × FraudNode) :=
  match node.flow with
  | none => if verifiables = [] then .ok ([], node) else .error (.fault .assertion)
  | some f =>
      (f.processVerifiables S { call with chain := node.chain call.chain } verifiables).map fun processed =>
        (processed.verifiables, { node with flow := some processed.flow })

/-- What an event does; `none` where a call does not end. -/
def step (node : FraudNode) : FlowEvent Trie → Option (Except ProcessFault FraudNode)
  | .addToMemPool v => some (.ok { node with mMemPool := node.mMemPool ++ [{ toCVerifiable := v }] })
  | .deleteMemPoolObject i => some (.ok { node with mMemPool := node.mMemPool.eraseIdx i })
  | .startFlow perspective =>
      some (.ok (if node.flow.isSome then node else { node with flow := perspective.map OpenFlow.start }))
  | .addVerifiableToFlow v =>
      some (.ok { node with
        flow := node.flow.map fun f => { f with mInFlowVerifiables := f.mInFlowVerifiables ++ [v] } })
  | .processTransactions transactions =>
      match node.flow with
      | none => some (.error (.fault .assertion))
      | some f =>
          some ((transactions f.mFlowStateDB).map fun txs => { node with flow := some (f.afterTransactions txs) })
  | .processMemPool call unprocessed =>
      let places := unprocessed.filter (· < node.mMemPool.length)
      some ((node.process S call (places.filterMap (node.mMemPool[·]?))).map fun (verifiables, after) =>
        { after with mMemPool := writeBack node.mMemPool places verifiables })
  | .processVerifiables call verifiables => some ((node.process S call verifiables).map Prod.snd)
  | .endFlow e =>
      match node.flow with
      | none => some (.ok node)
      | some f =>
          (e.endFlow S (node.chain e.context.chain) node.saved f).map fun result =>
            result.map fun (_, saved, penalized) =>
              { node with saved, penalized := node.penalized ++ penalized, flow := none }
  | .abortFlow => some (.ok { node with flow := none })

/-- The states that a node may come to from links in storage alone, by events that `Allowed` permits. -/
inductive Reached (Allowed : FraudNode → FlowEvent Trie → Prop) (saved : LinkStorage) : FraudNode → Prop
  | start : Reached Allowed saved { saved }
  | step {node node' : FraudNode} {event : FlowEvent Trie} : Reached Allowed saved node → Allowed node event →
      node.step S event = some (.ok node') → Reached Allowed saved node'

end FraudNode

end Gridnet
