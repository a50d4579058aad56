import Gridnet.ParentLookup

/-! Chain-proofs: the lists of serialized headers that nodes exchange, the checkpoints that a proof
activates, and what the verification of a proof reads of the node. Block heights, key heights and
cumulative difficulties are unsigned 64 bit numbers. -/

namespace Gridnet

variable {Trie : Type}

/-- Which of the node's chain-proofs a reference points to. -/
inductive eChainProof where
  | verified
  | heaviest
  | fullTemporary
  deriving DecidableEq, Repr

inductive eChainProofValidationResult where
  | valid
  | invalidGeneral
  | multiThreadValidationFailed
  | emptyChainProof
  | invalidStartPosition
  | missingObligatoryCheckpoint
  | blockHeaderInstantiationFailed
  | invalidBlockHeight
  | invalidKeyBlockPubKey
  | invalidSignature
  | invalidPoW
  | invalidParentReference
  | invalidKeyHeight
  | noKeyBlockFound
  | blockTimeOutOfRange
  | blackListedBlockFound
  | internalException
  | misplacedHardForkBlock
  | excessivePoW
  | invalidCoreVersion
  deriving DecidableEq, Repr

/-- The number after a `uint64_t`. -/
def successor (n : ℕ) : ℕ := (n + 1) % 2 ^ 64

structure CBCheckpoint where
  mHeight : ℕ
  mHash : Bytes
  active : Bool := false
  obligatory : Bool := false
  deriving DecidableEq, Repr

def CBCheckpoint.setIsActive (checkpoint : CBCheckpoint) (isIt : Bool) : CBCheckpoint :=
  { checkpoint with active := isIt }

/-- What the verification of headers takes from elsewhere. The key of `verifyBlockSignature` is empty
where the header's own is to be used, `getDifficulty` is the whole part of the difficulty, and
`exceedsParentWork` the comparison of two difficulties as floating point numbers with the ratio 1.3. -/
structure HeaderServices (Trie : Type) where
  instantiate : Bytes → Option (CBlockHeader Trie)
  getSHA2_256Vec : Bytes → Bytes
  verifyNonce : CBlockHeader Trie → Bool
  verifyBlockSignature : CBlockHeader Trie → (pubKey : Bytes) → Bool
  getDifficulty : CBlockHeader Trie → ℕ
  exceedsParentWork : (parent child : CBlockHeader Trie) → Bool
  getRequiredVersionNumber : (height : ℕ) → ℕ
  getMaxIntoThePastBlockTimeSkewSec : ℕ
  getMaxIntoTheFutureBlockParentTimeSkewSec : ℕ
  getMaxIntoTheFutureBlockNativeTimeSkewSec : ℕ

/-- What the verification of a chain-proof reads of the node, at the time it runs. -/
structure ProofNode where
  mHeaviestChainProofCumulativePoWs : List ℕ
  mHeaviestPath : List Bytes
  mCheckpoints : List CBCheckpoint
  isBlacklisted : Bytes → Bool
  getRequireObligatoryCheckpoints : Bool
  getIsOperatorLeadingAHardFork : Bool
  /-- `std::time(0)` -/
  nowNative : ℕ

/-- The arguments of a verification. The two last are in-out parameters. -/
structure ProofArguments (Trie : Type) where
  chainProof : List Bytes
  whichOne : eChainProof := .fullTemporary
  startFromPosition : ℕ := 0
  optimize : Bool := false
  requireCheckpoints : Bool := false
  keyLeader : Option (CBlockHeader Trie) := none
  containsGenesisBlock : Bool := false

/-- `&chainProof == &mHeaviestChainProof` -/
def ProofArguments.isHeaviestChainProof (call : ProofArguments Trie) : Bool :=
  call.whichOne == .heaviest

/-- `&chainProof == &mVerifiedChainProof` -/
def ProofArguments.isVerifiedChainProof (call : ProofArguments Trie) : Bool :=
  call.whichOne == .verified

/-- The lock of the heaviest path is taken at most once, for the heaviest chain-proof itself or for the
work list that an optimized run reads. -/
def ProofArguments.heaviestChainLocked (call : ProofArguments Trie) : Bool :=
  call.isHeaviestChainProof || (call.optimize && decide (1 ≤ call.startFromPosition))

/-! ### Checkpoints -/

/-- One turn of the loop of `activateCheckpoints`, at the checkpoint of index `i`: whether it is
activated. A checkpoint of a temporary or the verified proof is compared with the header of that
index. -/
def activates (services : HeaderServices Trie) (node : ProofNode) (call : ProofArguments Trie)
    (checkpoint : CBCheckpoint) (i : ℕ) : Except Crash Bool :=
  if checkpoint.obligatory then .ok true
  else if call.chainProof.length - 1 < checkpoint.mHeight then .ok false
  else
    let hash :=
      if call.isHeaviestChainProof then node.mHeaviestPath[checkpoint.mHeight]?
      else (call.chainProof[i]?).map services.getSHA2_256Vec
    match hash with
    | none => .error .outOfRange
    | some hash => .ok (hash == checkpoint.mHash)

/-- The loop of `activateCheckpoints` over checkpoints that are not active. -/
def activateFrom (services : HeaderServices Trie) (node : ProofNode) (call : ProofArguments Trie) :
    List CBCheckpoint → (i : ℕ) → Except Crash (List CBCheckpoint)
  | [], _ => .ok []
  | checkpoint :: rest, i => do
      let isActivated ← activates services node call checkpoint i
      let activated ← activateFrom services node call rest (i + 1)
      .ok (if isActivated then checkpoint.setIsActive true :: activated else activated)

/-- `activateCheckpoints`: the checkpoints that hold for a chain-proof. -/
def activateCheckpoints (services : HeaderServices Trie) (node : ProofNode) (call : ProofArguments Trie) :
    Except Crash (List CBCheckpoint) :=
  let inactive := node.mCheckpoints.map fun checkpoint => checkpoint.setIsActive false
  if call.isHeaviestChainProof then
    if call.chainProof.length = 0 then .ok [] else activateFrom services node call inactive 0
  else
    match call.chainProof.getLast? with
    | none => .ok []
    | some leading =>
        match services.instantiate leading with
        | none => .ok []
        | some _ => activateFrom services node call inactive 0

/-- The node's own checkpoints, which count where none was activated. The heaviest chain-proof has set
them inactive by then. -/
def ownCheckpoints (node : ProofNode) (call : ProofArguments Trie) : List CBCheckpoint :=
  if call.isHeaviestChainProof then node.mCheckpoints.map fun checkpoint => checkpoint.setIsActive false
  else node.mCheckpoints

/-- `isCheckpointed`: some active checkpoint lies at the height of the header or above. Without any
checkpoint the node's own are used. The comparison of hashes at the checkpoint's height comes too
late. -/
def isCheckpointed (mCheckpoints checkpoints : List CBCheckpoint) : Option (CBlockHeader Trie) → Bool
  | none => false
  | some blockHeader =>
      let checkpointsToUse := if checkpoints.isEmpty then mCheckpoints else checkpoints
      checkpointsToUse.any fun checkpoint =>
        checkpoint.active && decide (blockHeader.getHeight ≤ checkpoint.mHeight)

/-! ### Scanning -/

/-- The variables that the loop over the headers carries. -/
structure ScanState (Trie : Type) where
  currentHeight : ℕ
  currentKeyHeight : ℕ := 0
  previousHeaderHash : Bytes := []
  previousHeader : Option (CBlockHeader Trie) := none
  previousHeaderTimestamp : ℕ := 0
  leaderPubKey : Bytes := []
  previousKeyBlockID : Bytes := []
  firstKeyBlock : Bool := true
  parentIsHardForkBlock : Bool := false
  cumulativeDiff : ℕ := 0
  PoWs : List ℕ := []
  keyLeader : Option (CBlockHeader Trie) := none
  containsGenesisBlock : Bool := false
  validUpUntil : ℕ := 0

/-- A `return` before the end, and whether the lock of the heaviest path is released first. -/
structure ProofExit where
  result : eChainProofValidationResult
  unlocks : Bool := true
  deriving DecidableEq, Repr

/-- What a verification returns: its result, what it leaves in its reference parameters where it
accepts, and how often it acquired and released the lock of the heaviest path. -/
structure ProofVerdict (Trie : Type) where
  result : eChainProofValidationResult
  cumulativeDiff : ℕ := 0
  PoWs : List ℕ := []
  keyLeader : Option (CBlockHeader Trie) := none
  containsGenesisBlock : Bool := false
  validUpUntil : ℕ := 0
  acquired : ℕ := 0
  released : ℕ := 0

/-- The verdict of a run that ends early. -/
def ProofArguments.refused (call : ProofArguments Trie) (exit : ProofExit) : ProofVerdict Trie where
  result := exit.result
  acquired := if call.heaviestChainLocked then 1 else 0
  released := if call.heaviestChainLocked && exit.unlocks then 1 else 0

/-- The verdict of a run that accepts. -/
def ProofArguments.accepted (call : ProofArguments Trie) (st : ScanState Trie) : ProofVerdict Trie where
  result := .valid
  cumulativeDiff := st.cumulativeDiff
  PoWs := st.PoWs
  keyLeader := st.keyLeader
  containsGenesisBlock := st.containsGenesisBlock
  validUpUntil := st.validUpUntil
  acquired := if call.heaviestChainLocked then 1 else 0
  released := if call.heaviestChainLocked then 1 else 0

/-- How a run goes on: it stops at a crash, ends with a verdict or yields a value. -/
inductive ProofStop (Trie : Type) where
  | crash (reason : Crash)
  | verdict (verdict : ProofVerdict Trie)

/-- A read behind the end of a vector. -/
def indexed {α : Type} (vector : List α) (i : ℕ) : Except (ProofStop Trie) α :=
  match vector[i]? with
  | none => .error (.crash .outOfRange)
  | some a => .ok a

def orCrash {α : Type} : Except Crash α → Except (ProofStop Trie) α
  | .error reason => .error (.crash reason)
  | .ok a => .ok a

def orRefused {α : Type} (call : ProofArguments Trie) : Except ProofExit α → Except (ProofStop Trie) α
  | .error exit => .error (.verdict (call.refused exit))
  | .ok a => .ok a

/-- What a run amounts to. -/
def concluded : Except (ProofStop Trie) (ProofVerdict Trie) → Except Crash (ProofVerdict Trie)
  | .error (.crash reason) => .error reason
  | .error (.verdict verdict) => .ok verdict
  | .ok verdict => .ok verdict

/-- The verdict of a list of checks: the first that fails decides. -/
def firstFailure (checks : List (Bool × ProofExit)) : Option ProofExit :=
  (checks.find? Prod.fst).map Prod.snd

/-- A key block with a zero nonce, as `parentIsHardForkBlock` is computed from the previous header. -/
def isHardForkBlock (header : Option (CBlockHeader Trie)) : Bool :=
  header.any fun header => header.isKeyBlock && header.getNonce == 0

/-! ### Where an optimized run begins -/

/-- What is known before the start is fixed. -/
structure ProofStart (Trie : Type) where
  optimizing : Bool
  startFromPosition : ℕ
  PoWs : List ℕ := []
  cumulativeDiff : ℕ := 0
  previousHeaderHash : Bytes := []
  previousHeader : Option (CBlockHeader Trie) := none

/-- The preparation of the list of cumulative work, the same in both verifiers: it is read from the
node's for the positions up to the start, or the run falls back to a full one where the node has
none. -/
def prepareStart (services : HeaderServices Trie) (node : ProofNode) (call : ProofArguments Trie) :
    Except (ProofStop Trie) (ProofStart Trie) :=
  if call.optimize && decide (1 ≤ call.startFromPosition) then
    let start := call.startFromPosition
    let works := node.mHeaviestChainProofCumulativePoWs
    if works.length ≠ 0 ∧ works.length - 1 < start then
      .error (.verdict (call.refused { result := .invalidStartPosition }))
    else if works.length ≠ 0 then do
      let PoWs := works.take (start + 1)
      let cumulativeDiff ← indexed PoWs start
      let previousHeaderHash ← indexed node.mHeaviestPath (start - 1)
      let parent ← indexed call.chainProof (start - 1)
      .ok
        { optimizing := true
          startFromPosition := start
          PoWs
          cumulativeDiff
          previousHeaderHash
          previousHeader := services.instantiate parent }
    else .ok { optimizing := false, startFromPosition := 0 }
  else .ok { optimizing := false, startFromPosition := call.startFromPosition }

/-- The search for the first key block at or before a position. `none` where there is none: the
position has then been decremented below zero. -/
def findStart (services : HeaderServices Trie) (call : ProofArguments Trie) :
    (i : ℕ) → Except (ProofStop Trie) (Option ℕ)
  | 0 => do
      let bytes ← indexed call.chainProof 0
      match services.instantiate bytes with
      | none => .error (.verdict (call.refused { result := .blockHeaderInstantiationFailed }))
      | some currentHeader =>
          if currentHeader.isKeyBlock = false then .ok none
          else if currentHeader.getPubKey.length ≠ 32 then
            .error (.verdict (call.refused { result := .invalidKeyBlockPubKey }))
          else .ok (some 0)
  | i + 1 => do
      let bytes ← indexed call.chainProof (i + 1)
      match services.instantiate bytes with
      | none => .error (.verdict (call.refused { result := .blockHeaderInstantiationFailed }))
      | some currentHeader =>
          if currentHeader.isKeyBlock = false then findStart services call i
          else if currentHeader.getPubKey.length ≠ 32 then
            .error (.verdict (call.refused { result := .invalidKeyBlockPubKey }))
          else .ok (some (i + 1))

/-- The cumulative work of the header at the start, and the list of cumulative work up to it, where the
run is optimized. -/
def startingWork (node : ProofNode) (start : ProofStart Trie) (startFromPosition : ℕ) :
    Except (ProofStop Trie) (ℕ × List ℕ) :=
  if start.optimizing then do
    let cumulativeDiff ← indexed start.PoWs startFromPosition
    .ok (cumulativeDiff, node.mHeaviestChainProofCumulativePoWs.take (startFromPosition + 1))
  else .ok (0, [])

/-! ### Time-stamps -/

/-- A proposal that is too old with respect to the time of the chain, if that is known. -/
def tooFarIntoThePast (services : HeaderServices Trie) (nowProposal nowChain : ℕ) : Bool :=
  nowChain != 0 && decide (nowProposal < nowChain) &&
    decide (services.getMaxIntoThePastBlockTimeSkewSec < nowChain - nowProposal)

/-- A proposal that is too far ahead of its parent; a hard fork block before it excuses it. -/
def tooFarAfterParent (services : HeaderServices Trie) (previousHeader : Option (CBlockHeader Trie))
    (parentIsHardForkBlock : Bool) (nowProposal : ℕ) : Bool :=
  previousHeader.any fun previousHeader =>
    !parentIsHardForkBlock && decide (previousHeader.getSolvedAtTime < nowProposal) &&
      decide (services.getMaxIntoTheFutureBlockParentTimeSkewSec <
        nowProposal - previousHeader.getSolvedAtTime)

/-- A proposal that is too far ahead of the node's own clock. -/
def tooFarAfterClock (services : HeaderServices Trie) (node : ProofNode) (nowProposal : ℕ) : Bool :=
  node.nowNative != 0 && decide (node.nowNative < nowProposal) &&
    decide (services.getMaxIntoTheFutureBlockNativeTimeSkewSec < nowProposal - node.nowNative)

/-- An operator that leads a hard fork lets blocks of the own chains through. -/
def excusedByHardFork (node : ProofNode) (call : ProofArguments Trie) : Bool :=
  node.getIsOperatorLeadingAHardFork && (call.heaviestChainLocked || call.isVerifiedChainProof)

end Gridnet
