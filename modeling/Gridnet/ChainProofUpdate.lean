import Gridnet.ParallelVerifier

/-! `CBlockchainManager::analyzeAndUpdateChainProof` for the heaviest chain-proof: the common point with a
received chain-proof, the proposal made of both, the decision between them and the update of everything
that is kept in step with the heaviest chain-proof. -/

namespace Gridnet

variable {Trie : Type}

inductive eChainProofUpdateResult where
  | updated
  | updatedLocalBestKnown
  | totalDiffLower
  | noCommonPointFound
  | invalidData
  | Error
  deriving DecidableEq, Repr

/-- The heaviest chain-proof of a node, what is derived from it, and what solid storage holds of it. -/
structure HeaviestChain (Trie : Type) where
  mHeaviestChainProof : List Bytes
  mHeaviestPath : List Bytes
  mHeaviestPathDouble : List Bytes
  mHeaviestChainProofCumulativePoWs : List ℕ
  mHeaviestChainProofTotalDifficulty : ℕ
  mHeaviestChainProofLeaderBlock : Option (CBlockHeader Trie)
  mHeaviestChainProofLeaderKeyBlock : Option (CBlockHeader Trie)
  mHeaviestChainProofLeadingBlockID : Bytes
  mHeaviestKeyBlockIDsAtHeights : List Bytes
  storedPath : List Bytes
  storedChainProof : List Bytes

/-- What a verification reads of the node while this is its heaviest chain-proof. -/
def HeaviestChain.node (heaviest : HeaviestChain Trie) (node : ProofNode) : ProofNode :=
  { node with
    mHeaviestChainProofCumulativePoWs := heaviest.mHeaviestChainProofCumulativePoWs
    mHeaviestPath := heaviest.mHeaviestPath }

/-- What decides whether solid storage takes a value: writes may be aborted, the system may be
unavailable, the database may refuse the key. No chain-proof is saved while a restart is needed. -/
structure WriteState where
  mAbortAllWrites : Bool
  getIsSystemAvailable : Bool
  Put : (key : String) → Bool
  getIsRestartNeeded : Bool

/-- `CSolidStorage::saveValue` changes what is stored. It does not ask whether the system is available. -/
def WriteState.saveValue (solidStorage : WriteState) (key : String) : Bool :=
  !solidStorage.mAbortAllWrites && solidStorage.Put key

/-- `CSolidStorage::saveByteVectors` does. -/
def WriteState.saveByteVectors (solidStorage : WriteState) (key : String) : Bool :=
  !solidStorage.mAbortAllWrites && solidStorage.getIsSystemAvailable && solidStorage.Put key

/-- A storage that takes every value. -/
def openStorage : WriteState where
  mAbortAllWrites := false
  getIsSystemAvailable := true
  Put _ := true
  getIsRestartNeeded := false

/-- A received chain-proof. Its packed form, if there is one, stands as what it unpacks to. -/
structure UpdateCall where
  subChain : List Bytes
  receivedPackedChainProof : Option (List Bytes) := none
  doColdStorage : Bool := true
  solidStorage : WriteState := openStorage

/-- What the caller learns: the results, and the total difficulty where the verification of the proposal
accepts. -/
structure UpdateReport where
  updateResult : eChainProofUpdateResult
  result : Option eChainProofValidationResult := none
  totalDiffOfNewChainProof : Option ℕ := none
  resultingCompleteChainProof : List Bytes := []
  deriving DecidableEq, Repr

/-! ### The proposal -/

section Proposal

variable (services : HeaderServices Trie)

/-- A trailing empty element is taken off. -/
def preprocessed (subChain : List Bytes) : List Bytes :=
  match subChain.getLast? with
  | some [] => subChain.dropLast
  | _ => subChain

/-- The search for the common point among the first `y` headers of the received chain-proof, from the last
of them on: its place in the chain-proof and in the received one. A hash is looked up at its first place
in the chain-proof. -/
def commonPointBelow (chainProof subChain : List Bytes) : (y : ℕ) → Option (ℕ × ℕ)
  | 0 => none
  | y + 1 =>
      match (subChain[y]?).bind fun bytes =>
          (chainProof.map services.getSHA2_256Vec).idxOf? (services.getSHA2_256Vec bytes) with
      | some i => some (i, y)
      | none => commonPointBelow chainProof subChain y

def commonPoint (chainProof subChain : List Bytes) : Option (ℕ × ℕ) :=
  commonPointBelow services chainProof subChain subChain.length

/-- `newChainProofProposal`: the chain-proof up to the common point and the rest of the received one, or
the received one alone. -/
def newChainProofProposal (chainProof subChain : List Bytes) : Option (ℕ × ℕ) → List Bytes
  | none => subChain
  | some (atChainProof, atSubchain) =>
      chainProof.take (atChainProof + 1) ++ subChain.drop (atSubchain + 1)

/-- The arguments of the verification of the proposal. -/
def proposalCall (proposal : List Bytes) : Option (ℕ × ℕ) → ProofArguments Trie
  | none => { chainProof := proposal, requireCheckpoints := true }
  | some (atChainProof, _) =>
      { chainProof := proposal
        startFromPosition := atChainProof
        optimize := true
        requireCheckpoints := true }

/-! ### The decision -/

/-- The height of the last checkpoint that a chain-proof matches before the first that it does not. -/
def latestCheckpoint (chainProof : List Bytes) : (latest : ℕ) → List CBCheckpoint → ℕ
  | latest, [] => latest
  | latest, checkpoint :: rest =>
      match chainProof[checkpoint.mHeight]? with
      | none => latest
      | some bytes =>
          if services.getSHA2_256Vec bytes = checkpoint.mHash then
            latestCheckpoint chainProof checkpoint.mHeight rest
          else latest

/-- The three conditions under which a proposal replaces the chain-proof. -/
def outweighs (checkpoints : List CBCheckpoint) (chainProof proposal : List Bytes)
    (currentTotalDiff totalDiffOfNewChainProof : ℕ) : Bool :=
  decide (currentTotalDiff < totalDiffOfNewChainProof) ||
    (totalDiffOfNewChainProof == currentTotalDiff && decide (chainProof.length < proposal.length)) ||
    decide (latestCheckpoint services chainProof 0 checkpoints <
      latestCheckpoint services proposal 0 checkpoints)

end Proposal

/-! ### The update -/

/-- `setBlockIDAtKeyHeight`. -/
def setBlockIDAtKeyHeight (index : List Bytes) (height : ℕ) (blockID : Bytes) : List Bytes :=
  (index ++ List.replicate (height + 1 - index.length) []).set height blockID

/-- `truncateKeyBlockIDsFromKeyHeight`. -/
def truncateKeyBlockIDsFromKeyHeight (index : List Bytes) (height : ℕ) : List Bytes :=
  if height < index.length then index.take height else index

/-- The loop that enters the key blocks of a chain-proof into the index. -/
def indexKeyBlocks (services : HeaderServices Trie) (index : List Bytes) : List Bytes → List Bytes
  | [] => index
  | bytes :: rest =>
      match services.instantiate bytes with
      | none => indexKeyBlocks services index rest
      | some header =>
          let index :=
            if header.isKeyBlock then
              setBlockIDAtKeyHeight index header.getKeyHeight (services.getSHA2_256Vec bytes)
            else index
          indexKeyBlocks services index rest

/-- The loop of `updateHeaviestPathLeaders` from a position down, without the genesis block: the leading
block and the leading key block. -/
def leadersFrom (services : HeaderServices Trie) (chainProof : List Bytes) :
    (i : ℕ) → Option (CBlockHeader Trie) →
      Except Crash (Option (CBlockHeader Trie) × Option (CBlockHeader Trie))
  | 0, leader => .ok (leader, none)
  | i + 1, leader =>
      match chainProof[i + 1]? with
      | none => .error .outOfRange
      | some bytes =>
          match services.instantiate bytes with
          | none => .error .nullPointer
          | some header =>
              let leader := leader <|> some header
              if header.isKeyBlock then .ok (leader, some header)
              else leadersFrom services chainProof i leader

namespace HeaviestChain

variable (heaviest : HeaviestChain Trie)

/-- `updateHeaviestPathLeaders`. -/
def updateHeaviestPathLeaders (services : HeaderServices Trie) : Except Crash (HeaviestChain Trie) := do
  let leaders ← leadersFrom services heaviest.mHeaviestChainProof (heaviest.mHeaviestChainProof.length - 1)
    none
  .ok
    { heaviest with
      mHeaviestChainProofLeaderBlock := leaders.1 <|> heaviest.mHeaviestChainProofLeaderBlock
      mHeaviestChainProofLeaderKeyBlock := leaders.2 <|> heaviest.mHeaviestChainProofLeaderKeyBlock }

/-- The chain-proof is replaced, and the path and the list of cumulative work are cut behind the common
point and continued. Without a common point its place counts as zero. -/
def extendedBy (services : HeaderServices Trie) (commonPointAtChainProofIndex : ℕ) (proposal : List Bytes)
    (heaviestPoWsProposal : List ℕ) : HeaviestChain Trie :=
  let offset := if commonPointAtChainProofIndex = 0 then 0 else commonPointAtChainProofIndex + 1
  let cuts := heaviest.mHeaviestPath.length ≠ 0 ∧
    commonPointAtChainProofIndex < heaviest.mHeaviestPath.length - 1
  let ids := (proposal.drop offset).map services.getSHA2_256Vec
  let front {α : Type} (l : List α) : List α := if cuts then l.take offset else l
  { heaviest with
    mHeaviestChainProof := proposal
    mHeaviestPath := front heaviest.mHeaviestPath ++ ids
    mHeaviestPathDouble := front heaviest.mHeaviestPathDouble ++ ids
    mHeaviestChainProofCumulativePoWs :=
      front heaviest.mHeaviestChainProofCumulativePoWs ++ heaviestPoWsProposal.drop offset }

/-- What follows where the lengths do not match: the chain-proof and the path are loaded from solid
storage. -/
def restored (heaviestPoWsBackup : List ℕ) : HeaviestChain Trie :=
  { heaviest with
    mHeaviestChainProof := heaviest.storedChainProof
    mHeaviestPath := heaviest.storedPath
    mHeaviestPathDouble := heaviest.storedPath
    mHeaviestChainProofCumulativePoWs := heaviestPoWsBackup }

/-- `setPath` for the heaviest chain. -/
def setPath (solidStorage : WriteState) (path : List Bytes) (onlyColdStorage doColdStorage : Bool) :
    HeaviestChain Trie :=
  { heaviest with
    mHeaviestPath := if onlyColdStorage then heaviest.mHeaviestPath else path
    mHeaviestPathDouble := if onlyColdStorage then heaviest.mHeaviestPathDouble else path
    storedPath :=
      if doColdStorage && solidStorage.saveByteVectors "heaviestPath" then path else heaviest.storedPath }

/-- `setChainProof` for the heaviest chain. A packed form is saved as it is. -/
def setChainProof (solidStorage : WriteState) (proof : List Bytes) (onlyColdStorage : Bool)
    (receivedPackedChainProof : Option (List Bytes)) (doColdStorage : Bool) : HeaviestChain Trie :=
  let saves :=
    match receivedPackedChainProof with
    | none => solidStorage.saveByteVectors "heaviestChainProof"
    | some _ => solidStorage.saveValue "heaviestChainProof"
  { heaviest with
    mHeaviestChainProof := if onlyColdStorage then heaviest.mHeaviestChainProof else proof
    storedChainProof :=
      if doColdStorage && !solidStorage.getIsRestartNeeded && saves then receivedPackedChainProof.getD proof
      else heaviest.storedChainProof }

/-- Both saves of an update. -/
def stored (call : UpdateCall) (commonPointAFound : Bool) : HeaviestChain Trie :=
  let saved := heaviest.setPath call.solidStorage heaviest.mHeaviestPath false call.doColdStorage
  saved.setChainProof call.solidStorage saved.mHeaviestChainProof false
    (if commonPointAFound then none else call.receivedPackedChainProof) call.doColdStorage

/-- The update of the indexes. The proposal that the loop goes over has been moved from. -/
def reindexed (services : HeaderServices Trie) : Except Crash (HeaviestChain Trie) := do
  let movedFrom : List Bytes := []
  let indexed := indexKeyBlocks services heaviest.mHeaviestKeyBlockIDsAtHeights movedFrom
  let led ← { heaviest with mHeaviestKeyBlockIDsAtHeights := indexed }.updateHeaviestPathLeaders services
  match led.mHeaviestChainProofLeaderBlock with
  | none => .ok led
  | some leader =>
      .ok
        { led with
          mHeaviestKeyBlockIDsAtHeights :=
            truncateKeyBlockIDsFromKeyHeight led.mHeaviestKeyBlockIDsAtHeights
              (successor leader.getKeyHeight) }

/-- What follows the decision for a proposal. -/
def adopt (services : HeaderServices Trie) (node : ProofNode) (call : UpdateCall)
    (common : Option (ℕ × ℕ)) (proposal : List Bytes) (verdict : ProofVerdict Trie) :
    Except Crash (eChainProofUpdateResult × HeaviestChain Trie) :=
  match verdict.keyLeader with
  | none => .ok (.Error, { heaviest with mHeaviestChainProof := proposal })
  | some keyLeader =>
      let extended :=
        heaviest.extendedBy services ((common.map Prod.fst).getD 0) proposal verdict.PoWs
      if ¬ (extended.mHeaviestPath.length = extended.mHeaviestChainProof.length ∧
          extended.mHeaviestChainProof.length =
            extended.mHeaviestChainProofCumulativePoWs.length) then
        .ok (.Error, extended.restored heaviest.mHeaviestChainProofCumulativePoWs)
      else do
        let reindexed ← (extended.stored call common.isSome).reindexed services
        match reindexed.mHeaviestPath.getLast? with
        | none => .error .outOfRange
        | some leadingBlockID => do
            let updated :=
              { reindexed with
                mHeaviestChainProofTotalDifficulty := verdict.cumulativeDiff
                mHeaviestChainProofLeaderKeyBlock := some keyLeader
                mHeaviestChainProofLeadingBlockID := leadingBlockID }
            let _ ← activateCheckpoints services (updated.node node)
              { chainProof := updated.mHeaviestChainProof, whichOne := .heaviest }
            .ok (.updatedLocalBestKnown, updated)

end HeaviestChain

/-! ### The whole call -/

/-- A verification that returns is followed by the rest. -/
def onVerdict {α : Type} (run : Option (Except Crash (ProofVerdict Trie)))
    (rest : ProofVerdict Trie → Option (Except Crash α)) : Option (Except Crash α) :=
  match run with
  | none => none
  | some (.error reason) => some (.error reason)
  | some (.ok verdict) => rest verdict

/-- The difficulty that the proposal has to beat. Where none is recorded, the received chain-proof is
verified for itself and its own counts. -/
def currentDifficulty (heaviest : HeaviestChain Trie) (subChain : List Bytes)
    (verify : ProofArguments Trie → Option (Except Crash (ProofVerdict Trie))) :
    Option (Except Crash (ProofVerdict Trie)) :=
  if heaviest.mHeaviestChainProofTotalDifficulty = 0 then verify { chainProof := subChain }
  else
    some (.ok { result := .valid, cumulativeDiff := heaviest.mHeaviestChainProofTotalDifficulty })

/-- `analyzeAndUpdateChainProof` on the heaviest chain-proof. The calls of `verifyChainProof` do not ask
where a chain-proof is broken, so that the multi-threaded verifier has the last word. -/
def analyzeAndUpdateChainProof (services : HeaderServices Trie) (node : ProofNode) (numThreads fuel : ℕ)
    (call : UpdateCall) (heaviest : HeaviestChain Trie) :
    Option (Except Crash (UpdateReport × HeaviestChain Trie)) :=
  let verify := fun arguments : ProofArguments Trie =>
    Parallel.verifyChainProofMT services (heaviest.node node) arguments numThreads fuel
  let subChain := preprocessed call.subChain
  if subChain.length = 0 then some (.ok ({ updateResult := .Error }, heaviest))
  else
    onVerdict (currentDifficulty heaviest subChain verify) fun current =>
      if current.result ≠ .valid then
        some (.ok ({ updateResult := .invalidData, result := some current.result }, heaviest))
      else
        let common := commonPoint services heaviest.mHeaviestChainProof subChain
        let proposal := newChainProofProposal heaviest.mHeaviestChainProof subChain common
        onVerdict (verify (proposalCall proposal common)) fun verdict =>
          let report (updateResult : eChainProofUpdateResult) (totalDiff : Option ℕ) : UpdateReport :=
            { updateResult
              result := some verdict.result
              totalDiffOfNewChainProof := totalDiff
              resultingCompleteChainProof := proposal }
          if verdict.result ≠ .valid then some (.ok (report .invalidData none, heaviest))
          else if outweighs services node.mCheckpoints heaviest.mHeaviestChainProof proposal
              current.cumulativeDiff verdict.cumulativeDiff then
            some ((heaviest.adopt services node call common proposal verdict).map fun outcome =>
              (report outcome.1 (some verdict.cumulativeDiff), outcome.2))
          else some (.ok (report .totalDiffLower (some verdict.cumulativeDiff), heaviest))

end Gridnet
