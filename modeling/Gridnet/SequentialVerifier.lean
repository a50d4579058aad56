import Gridnet.ChainProofModel

/-! The sequential part of `CBlockchainManager::verifyChainProof`. -/

namespace Gridnet

variable {Trie : Type}

/-- What the loop of a verifier has at hand beside its variables. -/
structure ScanContext (Trie : Type) where
  services : HeaderServices Trie
  node : ProofNode
  call : ProofArguments Trie
  checkpoints : List CBCheckpoint
  optimizing : Bool
  startFromPosition : ℕ

namespace ScanContext

variable (ctx : ScanContext Trie)

def isCheckpointed (header : Option (CBlockHeader Trie)) : Bool :=
  Gridnet.isCheckpointed (ownCheckpoints ctx.node ctx.call) ctx.checkpoints header

end ScanContext

namespace Sequential

/-- An obligatory checkpoint that the chain-proof does not reach, or whose hash it does not have. Only
the verified chain-proof may be too short. -/
def missesCheckpoint (services : HeaderServices Trie) (node : ProofNode) (call : ProofArguments Trie)
    (checkpoint : CBCheckpoint) : Bool :=
  checkpoint.obligatory &&
    (decide (call.chainProof.length - 1 < checkpoint.mHeight) && !call.isVerifiedChainProof ||
      decide (checkpoint.mHeight + 1 ≤ call.chainProof.length) &&
        ((call.chainProof[checkpoint.mHeight]?).map services.getSHA2_256Vec != some checkpoint.mHash) &&
        !node.getIsOperatorLeadingAHardFork)

/-- A `break`: what is returned depends on whether a key of a key block is known. -/
def broke (leaderPubKey : Bytes) (result : eChainProofValidationResult) : ProofExit where
  result := if leaderPubKey.length ≠ 32 then .noKeyBlockFound else result

variable (ctx : ScanContext Trie) (st : ScanState Trie)

/-- The checks of a key block, in the order of the source. The flag of a hard fork block is never
reset. -/
def keyChecks (header : CBlockHeader Trie) : List (Bool × ProofExit) :=
  let nowProposal := header.getSolvedAtTime
  let nowChain := st.previousHeaderTimestamp
  let parentIsHardForkBlock := st.parentIsHardForkBlock || isHardForkBlock st.previousHeader
  let isCheckpointed := ctx.isCheckpointed (some header)
  let excused := excusedByHardFork ctx.node ctx.call || isCheckpointed
  [(nowProposal == 0 && !isCheckpointed, { result := .blockTimeOutOfRange }),
    (nowChain == 0 && header.getHeight != 0 && !ctx.isCheckpointed st.previousHeader,
      { result := .blockTimeOutOfRange }),
    (tooFarIntoThePast ctx.services nowProposal nowChain && !excused, { result := .blockTimeOutOfRange }),
    ((tooFarAfterParent ctx.services st.previousHeader parentIsHardForkBlock nowProposal ||
        tooFarAfterClock ctx.services ctx.node nowProposal) && !excused,
      { result := .blockTimeOutOfRange }),
    (!ctx.services.verifyNonce header && header.getNonce == 0 && !isCheckpointed,
      { result := .misplacedHardForkBlock }),
    (!ctx.services.verifyNonce header && header.getNonce != 0 && !isCheckpointed,
      { result := .invalidPoW }),
    (!st.firstKeyBlock && (st.previousHeader.any fun previousHeader =>
        previousHeader.isKeyBlock && ctx.services.exceedsParentWork previousHeader header) &&
        !isCheckpointed,
      { result := .excessivePoW }),
    (!ctx.services.verifyBlockSignature header [], broke st.leaderPubKey .invalidSignature),
    (!st.firstKeyBlock && header.getKeyHeight != successor st.currentKeyHeight,
      broke st.leaderPubKey .invalidKeyHeight),
    (!st.firstKeyBlock && st.previousKeyBlockID != header.getParentKeyBlockID,
      broke st.leaderPubKey .invalidParentReference)]

def dataChecks (header : CBlockHeader Trie) : List (Bool × ProofExit) :=
  [(st.leaderPubKey.length == 0, { result := .invalidKeyBlockPubKey }),
    (!ctx.services.verifyBlockSignature header st.leaderPubKey,
      broke st.leaderPubKey .invalidSignature)]

/-- All checks of one turn, for the header at position `i`. -/
def headerChecks (i : ℕ) (bytes : Bytes) (header : CBlockHeader Trie) : List (Bool × ProofExit) :=
  let leaderPubKey := if header.isKeyBlock then header.getPubKey else st.leaderPubKey
  [(decide (header.getCoreVersion < ctx.services.getRequiredVersionNumber header.getHeight),
      { result := .invalidCoreVersion }),
    ((ctx.call.isVerifiedChainProof || ctx.call.isHeaviestChainProof) && i != header.getHeight,
      { result := .invalidBlockHeight }),
    (i != 0 && header.getHeight != successor st.currentHeight,
      broke st.leaderPubKey .invalidBlockHeight)] ++
  (if header.isKeyBlock then keyChecks ctx st header else dataChecks ctx st header) ++
  [(decide (0 < i) && header.getParentID.length != 32, broke leaderPubKey .invalidParentReference),
    (decide (0 < i) && header.getParentID != st.previousHeaderHash,
      broke leaderPubKey .invalidParentReference),
    (ctx.node.isBlacklisted (ctx.services.getSHA2_256Vec bytes), { result := .blackListedBlockFound })]

/-- The variables after a header is accepted. -/
def advance (i : ℕ) (bytes : Bytes) (header : CBlockHeader Trie) : ScanState Trie :=
  let previousHeaderHash := ctx.services.getSHA2_256Vec bytes
  let parentIsHardForkBlock := st.parentIsHardForkBlock || isHardForkBlock st.previousHeader
  let st :=
    { st with
      parentIsHardForkBlock
      containsGenesisBlock := st.containsGenesisBlock || i == 0 && header.getHeight == 0
      previousHeaderHash
      previousHeaderTimestamp := header.getSolvedAtTime
      previousHeader := some header
      currentHeight := header.getHeight
      validUpUntil := header.getHeight }
  if header.isKeyBlock then
    let st :=
      if ctx.optimizing && i == ctx.startFromPosition then st
      else
        let cumulativeDiff := (st.cumulativeDiff + ctx.services.getDifficulty header) % 2 ^ 64
        { st with cumulativeDiff, PoWs := st.PoWs ++ [cumulativeDiff] }
    { st with
      leaderPubKey := header.getPubKey
      firstKeyBlock := false
      previousKeyBlockID := previousHeaderHash
      currentKeyHeight := header.getKeyHeight
      keyLeader := some header }
  else { st with PoWs := st.PoWs ++ [st.cumulativeDiff] }

/-- One turn of the loop. -/
def verifyHeader (element : Bytes × ℕ) : Except ProofExit (ScanState Trie) :=
  match ctx.services.instantiate element.1 with
  | none => .error { result := .blockHeaderInstantiationFailed }
  | some header =>
      match firstFailure (headerChecks ctx st element.2 element.1 header) with
      | some exit => .error exit
      | none => .ok (advance ctx st element.2 element.1 header)

/-- The start after it was moved to a key block. Without one it is the predecessor of zero. -/
def fixedStart : Option ℕ → ℕ
  | some start => start
  | none => 2 ^ 64 - 1

/-- The variables before the loop. -/
def initialState (services : HeaderServices Trie) (node : ProofNode) (call : ProofArguments Trie)
    (start : ProofStart Trie) (found : Option ℕ) : Except (ProofStop Trie) (ScanState Trie) := do
  let startFromPosition := fixedStart found
  let work ← startingWork node start startFromPosition
  let st : ScanState Trie :=
    { currentHeight := startFromPosition - 1
      previousHeaderHash := start.previousHeaderHash
      previousHeader := start.previousHeader
      cumulativeDiff := work.1
      PoWs := work.2
      keyLeader := call.keyLeader
      containsGenesisBlock := call.containsGenesisBlock }
  if 1 ≤ startFromPosition then do
    let parent ← indexed call.chainProof (startFromPosition - 1)
    let previousHeader := services.instantiate parent
    .ok
      { st with
        previousHeaderHash := services.getSHA2_256Vec parent
        previousHeader
        previousHeaderTimestamp := (previousHeader.map CBlockHeader.getSolvedAtTime).getD 0 }
  else .ok st

/-- The sequential part of `verifyChainProof`, up to its verdict. The part that takes the work of local
blocks into account is not reached: some header was taken in, and the list of cumulative work is not
empty. -/
def run (services : HeaderServices Trie) (node : ProofNode) (call : ProofArguments Trie) :
    Except (ProofStop Trie) (ProofVerdict Trie) := do
  let start ← prepareStart services node call
  if call.chainProof.length = 0 then
    .error (.verdict (call.refused { result := .emptyChainProof }))
  else
    let checkpoints ← orCrash (activateCheckpoints services node call)
    if call.requireCheckpoints && node.getRequireObligatoryCheckpoints &&
        checkpoints.any (missesCheckpoint services node call) then
      .error (.verdict (call.refused { result := .missingObligatoryCheckpoint }))
    else
      let found ← findStart services call start.startFromPosition
      let st ← initialState services node call start found
      let ctx : ScanContext Trie :=
        { services, node, call, checkpoints
          optimizing := start.optimizing
          startFromPosition := fixedStart found }
      let st ← orRefused call <|
        (call.chainProof.zipIdx.drop ctx.startFromPosition).foldlM (verifyHeader ctx) st
      if st.leaderPubKey.length ≠ 32 then
        .error (.verdict (call.refused { result := .noKeyBlockFound }))
      else .ok (call.accepted st)

/-- The sequential part of `verifyChainProof`. -/
def verifyChainProof (services : HeaderServices Trie) (node : ProofNode) (call : ProofArguments Trie) :
    Except Crash (ProofVerdict Trie) :=
  concluded (run services node call)

end Sequential

end Gridnet
