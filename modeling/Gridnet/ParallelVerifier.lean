import Gridnet.SequentialVerifier

/-! `CBlockchainManager::verifyChainProofMT`: the search for key blocks in segments, the chunks that
begin at key blocks, the signatures of each chunk, and the final pass over all headers. What the threads
of a phase do is independent of their order, except for which of several failures is reported; here it
is the first. -/

namespace Gridnet

variable {Trie : Type}

namespace Parallel

/-! ### Phase 1: key blocks -/

/-- The segments that the threads search, for a chain-proof of `chainSize` headers. -/
def segments (chainSize startFromPosition numThreads : ℕ) : List (ℕ × ℕ) :=
  let segmentSize := max ((chainSize - startFromPosition) / numThreads) 1
  ((List.range numThreads).takeWhile fun t => startFromPosition + t * segmentSize < chainSize).map fun t =>
    let segmentStart := startFromPosition + t * segmentSize
    (segmentStart, if t = numThreads - 1 then chainSize else segmentStart + segmentSize)

/-- The headers of a segment, or of a chunk. -/
def slice (chainProof : List Bytes) (range : ℕ × ℕ) : List (Bytes × ℕ) :=
  (chainProof.zipIdx.take range.2).drop range.1

/-- What a thread of the first phase does with one header. -/
def identifyHeader (services : HeaderServices Trie) (found : List ℕ) (element : Bytes × ℕ) :
    Except ProofExit (List ℕ) :=
  match services.instantiate element.1 with
  | none => .error { result := .blockHeaderInstantiationFailed }
  | some header => .ok (if header.isKeyBlock then found ++ [element.2] else found)

/-- One thread: the key blocks of a segment. -/
def identify (services : HeaderServices Trie) (elements : List (Bytes × ℕ)) :
    Except ProofExit (List ℕ) :=
  elements.foldlM (identifyHeader services) []

/-- The sorted indices of key blocks. The start is entered first, and once more when it is found. -/
def keyBlockIndices (services : HeaderServices Trie) (chainProof : List Bytes)
    (startFromPosition numThreads : ℕ) : Except ProofExit (List ℕ) := do
  let found ← (segments chainProof.length startFromPosition numThreads).mapM fun segment =>
    identify services (slice chainProof segment)
  .ok ((startFromPosition :: found.flatten).mergeSort fun i j => decide (i ≤ j))

/-! ### Chunks -/

/-- The loop that passes over the key blocks up to `chunkEnd`. -/
def skipKeys (keys : List ℕ) (keyBlockIndex chunkEnd : ℕ) : ℕ :=
  keyBlockIndex + ((keys.drop keyBlockIndex).takeWhile fun key => key ≤ chunkEnd).length

/-- The loop that cuts the chain-proof into chunks, for as many turns as `fuel` allows: `none` while it
is still running. -/
def cutChunks (keys : List ℕ) (chainSize idealChunkSize : ℕ) :
    (fuel currentStart keyBlockIndex : ℕ) → List (ℕ × ℕ) → Option (Except Crash (List (ℕ × ℕ)))
  | 0, _, _, _ => none
  | fuel + 1, currentStart, keyBlockIndex, chunks =>
      if currentStart < chainSize then
        let keyBlockIndex := skipKeys keys keyBlockIndex (currentStart + idealChunkSize)
        if keyBlockIndex < keys.length then
          if keyBlockIndex = 0 then some (.error .outOfRange)
          else
            let chunkEnd := keys.getD (keyBlockIndex - 1) 0
            cutChunks keys chainSize idealChunkSize fuel chunkEnd keyBlockIndex
              (if currentStart < chunkEnd then chunks ++ [(currentStart, chunkEnd)] else chunks)
        else
          cutChunks keys chainSize idealChunkSize fuel chainSize keyBlockIndex
            (if currentStart < chainSize then chunks ++ [(currentStart, chainSize)] else chunks)
      else some (.ok chunks)

/-- The last key block up to a boundary, as `lower_bound` and the step back find it. -/
def nearestKey (keys : List ℕ) (boundary : ℕ) : ℕ :=
  let it := (keys.takeWhile fun key => key < boundary).length
  let it := if it ≠ 0 ∧ (it = keys.length ∨ boundary < keys.getD it 0) then it - 1 else it
  keys.getD it 0

/-- A last chunk that is too small takes part of the one before it. -/
def balanceChunks (keys : List ℕ) (chunks : List (ℕ × ℕ)) : List (ℕ × ℕ) :=
  match chunks.reverse with
  | lastChunk :: secondLastChunk :: earlier =>
      let secondLastSize := secondLastChunk.2 - secondLastChunk.1
      let lastSize := lastChunk.2 - lastChunk.1
      if lastSize < secondLastSize / 2 then
        let newBoundary := nearestKey keys (secondLastChunk.1 + (secondLastSize + lastSize) / 2)
        earlier.reverse ++ [(secondLastChunk.1, newBoundary), (newBoundary, lastChunk.2)]
      else chunks
  | _ => chunks

def effectiveThreads (totalBlocks numThreads : ℕ) : ℕ :=
  min numThreads ((totalBlocks + 100 - 1) / 100 % 2 ^ 32)

/-- The chunks of a chain-proof. -/
def prepareChunks (keys : List ℕ) (chainSize startFromPosition numThreads fuel : ℕ) :
    Option (Except Crash (List (ℕ × ℕ))) :=
  let totalBlocks := chainSize - startFromPosition
  let effectiveThreads := effectiveThreads totalBlocks numThreads
  if effectiveThreads = 1 ∨ keys.length ≤ 2 then some (.ok [(startFromPosition, chainSize)])
  else if effectiveThreads = 0 then some (.error .divisionByZero)
  else
    let idealChunkSize := (totalBlocks + effectiveThreads - 1) / effectiveThreads
    (cutChunks keys chainSize idealChunkSize fuel startFromPosition 0 []).map fun chunks =>
      chunks.map (balanceChunks keys)

/-! ### Phase 2: signatures -/

/-- What the turn of a chunk's thread does with one header, given the key of the key block before it. -/
def verifySignature (services : HeaderServices Trie) (currentLeaderPubKey : Bytes)
    (element : Bytes × ℕ) : Except ProofExit Bytes :=
  match services.instantiate element.1 with
  | none => .error { result := .blockHeaderInstantiationFailed }
  | some header =>
      if header.isKeyBlock then
        if services.verifyBlockSignature header [] then .ok header.getPubKey
        else .error { result := .invalidSignature }
      else if services.verifyBlockSignature header currentLeaderPubKey then .ok currentLeaderPubKey
      else .error { result := .invalidSignature }

/-- One thread. An empty chunk has no first result. The version that is compared is that of the header
found last when the start was fixed. -/
def verifyChunk (services : HeaderServices Trie) (chainProof : List Bytes)
    (currentHeader : CBlockHeader Trie) (chunk : ℕ × ℕ) :
    Except Crash (Except ProofExit Bytes) :=
  let outdated := decide
    (currentHeader.getCoreVersion < services.getRequiredVersionNumber currentHeader.getHeight)
  match slice chainProof chunk with
  | [] => .error .outOfRange
  | first :: rest => .ok do
      match services.instantiate first.1 with
      | none => .error { result := .blockHeaderInstantiationFailed }
      | some header =>
          if outdated then .error { result := .invalidCoreVersion }
          else if header.isKeyBlock = false then .error { result := .noKeyBlockFound }
          else
            let currentLeaderPubKey ← verifySignature services header.getPubKey first
            rest.foldlM (verifySignature services) currentLeaderPubKey

/-- All threads of the second phase. -/
def verifyChunks (services : HeaderServices Trie) (chainProof : List Bytes)
    (currentHeader : CBlockHeader Trie) (chunks : List (ℕ × ℕ)) :
    Except Crash (Except ProofExit (List Bytes)) := do
  let outcomes ← chunks.mapM (verifyChunk services chainProof currentHeader)
  .ok (outcomes.mapM id)

/-- The combined results: the header at a position that lies in some chunk. -/
def blockResult (services : HeaderServices Trie) (chainProof : List Bytes) (chunks : List (ℕ × ℕ))
    (i : ℕ) : Option (CBlockHeader Trie) :=
  if chunks.any fun chunk => decide (chunk.1 ≤ i) && decide (i < chunk.2) then
    (chainProof[i]?).bind services.instantiate
  else none

/-- The hash of a combined result, empty where there is none. -/
def headerHash (services : HeaderServices Trie) (chainProof : List Bytes) (chunks : List (ℕ × ℕ))
    (i : ℕ) : Bytes :=
  if (blockResult services chainProof chunks i).isSome then
    ((chainProof[i]?).map services.getSHA2_256Vec).getD []
  else []

/-! ### Phase 3: the final pass -/

/-- An obligatory checkpoint is only looked for in the node's own chain-proofs. -/
def missesCheckpoint (services : HeaderServices Trie) (node : ProofNode) (call : ProofArguments Trie)
    (chunks : List (ℕ × ℕ)) (checkpoint : CBCheckpoint) : Bool :=
  checkpoint.obligatory && call.whichOne != .fullTemporary &&
    (decide (call.chainProof.length - 1 < checkpoint.mHeight) && !call.isVerifiedChainProof ||
      decide (checkpoint.mHeight + 1 ≤ call.chainProof.length) &&
        (headerHash services call.chainProof chunks checkpoint.mHeight != checkpoint.mHash &&
          !node.getIsOperatorLeadingAHardFork))

variable (ctx : ScanContext Trie) (st : ScanState Trie)

/-- The checks of a key block, in the order of the source. Two of them return without releasing the
lock. -/
def keyChecks (header : CBlockHeader Trie) : List (Bool × ProofExit) :=
  let nowProposal := header.getSolvedAtTime
  let nowChain := st.previousHeaderTimestamp
  let parentIsHardForkBlock := isHardForkBlock st.previousHeader
  let isCheckpointed := ctx.isCheckpointed (some header)
  let excused := excusedByHardFork ctx.node ctx.call || isCheckpointed
  [(!ctx.services.verifyNonce header && !isCheckpointed && header.getNonce == 0,
      { result := .misplacedHardForkBlock }),
    (!ctx.services.verifyNonce header && !isCheckpointed && header.getNonce != 0,
      { result := .invalidPoW }),
    (nowProposal == 0 && !isCheckpointed, { result := .blockTimeOutOfRange }),
    (nowChain == 0 && header.getHeight != 0 &&
        (st.previousHeader.isSome && !ctx.isCheckpointed st.previousHeader),
      { result := .blockTimeOutOfRange }),
    (tooFarIntoThePast ctx.services nowProposal nowChain && !excused, { result := .blockTimeOutOfRange }),
    ((tooFarAfterParent ctx.services st.previousHeader parentIsHardForkBlock nowProposal ||
        tooFarAfterClock ctx.services ctx.node nowProposal) && !excused,
      { result := .blockTimeOutOfRange }),
    (!st.firstKeyBlock && header.getKeyHeight != successor st.currentKeyHeight,
      { result := .invalidKeyHeight, unlocks := false }),
    (!st.firstKeyBlock && st.previousKeyBlockID != header.getParentKeyBlockID,
      { result := .invalidParentReference, unlocks := false })]

def dataChecks : List (Bool × ProofExit) :=
  [(st.leaderPubKey.length == 0, { result := .invalidKeyBlockPubKey })]

/-- All checks of one turn, for the header at position `i`. -/
def headerChecks (i : ℕ) (bytes : Bytes) (header : CBlockHeader Trie) : List (Bool × ProofExit) :=
  [((ctx.call.isVerifiedChainProof || ctx.call.isHeaviestChainProof) && i != header.getHeight,
      { result := .invalidBlockHeight }),
    (decide (header.getCoreVersion < ctx.services.getRequiredVersionNumber header.getHeight),
      { result := .invalidCoreVersion }),
    (i != 0 && header.getHeight != successor st.currentHeight, { result := .invalidBlockHeight })] ++
  (if header.isKeyBlock then keyChecks ctx st header else dataChecks st) ++
  [(decide (0 < i) && header.getParentID.length != 32,
      { result := .invalidParentReference, unlocks := false }),
    (decide (0 < i) && header.getParentID != st.previousHeaderHash,
      { result := .invalidParentReference, unlocks := false }),
    (ctx.node.isBlacklisted (ctx.services.getSHA2_256Vec bytes), { result := .blackListedBlockFound })]

/-- The variables after a header is accepted. -/
def advance (i : ℕ) (bytes : Bytes) (header : CBlockHeader Trie) : ScanState Trie :=
  let headerHash := ctx.services.getSHA2_256Vec bytes
  let st :=
    { st with
      containsGenesisBlock := st.containsGenesisBlock || i == 0 && header.getHeight == 0
      previousHeaderHash := headerHash
      previousHeaderTimestamp := header.getSolvedAtTime
      previousHeader := some header
      currentHeight := header.getHeight
      validUpUntil := header.getHeight }
  if header.isKeyBlock then
    let st :=
      if ctx.optimizing && i == ctx.startFromPosition then
        { st with PoWs := st.PoWs ++ List.replicate (i + 1 - st.PoWs.length) st.cumulativeDiff }
      else
        let cumulativeDiff := (st.cumulativeDiff + ctx.services.getDifficulty header) % 2 ^ 64
        { st with cumulativeDiff, PoWs := st.PoWs ++ [cumulativeDiff] }
    { st with
      leaderPubKey := header.getPubKey
      firstKeyBlock := false
      previousKeyBlockID := headerHash
      currentKeyHeight := header.getKeyHeight
      keyLeader := some header }
  else { st with PoWs := st.PoWs ++ [st.cumulativeDiff] }

/-- One turn of the final pass. -/
def verifyHeader (chunks : List (ℕ × ℕ)) (element : Bytes × ℕ) : Except ProofExit (ScanState Trie) :=
  match blockResult ctx.services ctx.call.chainProof chunks element.2 with
  | none => .error { result := .blockHeaderInstantiationFailed }
  | some header =>
      match firstFailure (headerChecks ctx st element.2 element.1 header) with
      | some exit => .error exit
      | none => .ok (advance ctx st element.2 element.1 header)

/-- The variables before the first phase, once a key block is found at `startFromPosition`. -/
def initialState (services : HeaderServices Trie) (node : ProofNode) (call : ProofArguments Trie)
    (start : ProofStart Trie) (startFromPosition : ℕ) (startHeader : CBlockHeader Trie) :
    Except (ProofStop Trie) (ScanState Trie) := do
  let work ← startingWork node start startFromPosition
  let st : ScanState Trie :=
    { currentHeight := startFromPosition - 1
      previousHeader := start.previousHeader
      cumulativeDiff := work.1
      PoWs := work.2
      keyLeader := some startHeader
      containsGenesisBlock := call.containsGenesisBlock }
  if 1 ≤ startFromPosition then do
    let parent ← indexed call.chainProof (startFromPosition - 1)
    match services.instantiate parent with
    | none => .error (.verdict (call.refused { result := .blockHeaderInstantiationFailed }))
    | some previousBH =>
        .ok
          { st with
            previousHeaderHash := services.getSHA2_256Vec parent
            previousHeader := some previousBH
            previousHeaderTimestamp := previousBH.getSolvedAtTime }
  else .ok st

/-- What follows once the chunks are known. -/
def verifyInChunks (services : HeaderServices Trie) (node : ProofNode) (call : ProofArguments Trie)
    (start : ProofStart Trie) (startFromPosition : ℕ) (startHeader : CBlockHeader Trie)
    (st : ScanState Trie) (chunks : List (ℕ × ℕ)) : Except (ProofStop Trie) (ProofVerdict Trie) := do
  let outcomes ← orCrash (verifyChunks services call.chainProof startHeader chunks)
  let _ ← orRefused call outcomes
  let checkpoints ← orCrash (activateCheckpoints services node call)
  if call.requireCheckpoints && node.getRequireObligatoryCheckpoints &&
      checkpoints.any (missesCheckpoint services node call chunks) then
    .error (.verdict (call.refused { result := .missingObligatoryCheckpoint }))
  else
    let ctx : ScanContext Trie :=
      { services, node, call, checkpoints, optimizing := start.optimizing, startFromPosition }
    let st ← orRefused call <|
      (call.chainProof.zipIdx.drop startFromPosition).foldlM (fun st => verifyHeader ctx st chunks) st
    if st.leaderPubKey.length ≠ 32 then
      .error (.verdict (call.refused { result := .noKeyBlockFound }))
    else .ok (call.accepted st)

/-- What is known when the chunks are cut. -/
structure Prepared (Trie : Type) where
  start : ProofStart Trie
  startFromPosition : ℕ
  startHeader : CBlockHeader Trie
  st : ScanState Trie
  keys : List ℕ

/-- The run up to the chunks. -/
def prepare (services : HeaderServices Trie) (node : ProofNode) (call : ProofArguments Trie)
    (numThreads : ℕ) : Except (ProofStop Trie) (Prepared Trie) := do
  let start ← prepareStart services node call
  if call.chainProof.length = 0 then
    .error (.verdict (call.refused { result := .emptyChainProof }))
  else
    let found ← findStart services call start.startFromPosition
    match found with
    | none => .error (.verdict (call.refused { result := .noKeyBlockFound }))
    | some startFromPosition =>
        match (call.chainProof[startFromPosition]?).bind services.instantiate with
        | none => .error (.verdict (call.refused { result := .blockHeaderInstantiationFailed }))
        | some startHeader => do
            let st ← initialState services node call start startFromPosition startHeader
            if numThreads = 0 then .error (.crash .divisionByZero)
            else
              let keys ← orRefused call <|
                keyBlockIndices services call.chainProof startFromPosition numThreads
              .ok { start, startFromPosition, startHeader, st, keys }

/-- `verifyChainProofMT`: `none` while the chunks are still being cut after `fuel` turns. -/
def verifyChainProofMT (services : HeaderServices Trie) (node : ProofNode) (call : ProofArguments Trie)
    (numThreads fuel : ℕ) : Option (Except Crash (ProofVerdict Trie)) :=
  match prepare services node call numThreads with
  | .error stop => some (concluded (.error stop))
  | .ok prepared =>
      (prepareChunks prepared.keys call.chainProof.length prepared.startFromPosition numThreads
        fuel).map fun chunks =>
          concluded do
            let chunks ← orCrash chunks
            verifyInChunks services node call prepared.start prepared.startFromPosition
              prepared.startHeader prepared.st chunks

end Parallel

end Gridnet
