import Gridnet.BlockModel

/-! Blocks in memory and the look-up of their parents: `CBlockHeader::getParent` with the caches and
the storage that it asks, `getBlockAtHeight` over the verified chain, the walk from a block to its
parents and the total work that `CBlock::getTotaWorkDoneInt` computes along it. -/

namespace Gridnet

/-- How a call ends that reads where nothing is. -/
inductive Crash where
  | nullPointer
  | outOfRange
  | divisionByZero
  deriving DecidableEq, Repr

variable {Trie : Type}

namespace CBlockHeader

def getHeight (header : CBlockHeader Trie) : ℕ := header.fields .mHeight

def getKeyHeight (header : CBlockHeader Trie) : ℕ := header.fields .mKeyHeight

def getCoreVersion (header : CBlockHeader Trie) : ℕ := header.fields .mCoreVersion

def getNonce (header : CBlockHeader Trie) : ℕ := header.fields .mNonce

def getSolvedAtTime (header : CBlockHeader Trie) : ℕ := header.fields .mSolvedAt

def getPubKey (header : CBlockHeader Trie) : Bytes := header.fields .mPublicKey

def getParentID (header : CBlockHeader Trie) : Bytes := header.fields .mParentBlockID

def getParentKeyBlockID (header : CBlockHeader Trie) : Bytes := header.fields .mParentKeyBlockID

def isKeyBlock (header : CBlockHeader Trie) : Bool := header.mIsKeyBlock

end CBlockHeader

/-- A block in memory: its header, the pointer to its parent, and the total work recorded for it, which
is zero where none is. -/
structure LiveBlock (Trie : Type) where
  mBlockHeader : CBlockHeader Trie
  mParentBlock : Option (LiveBlock Trie) := none
  mTotalWorkDone : ℕ := 0

/-- What the look-up of a block reads of the node. An entry of the flat cache is a weak pointer, `none`
where the block is gone. `getBlockByHash` is the header of the block that the storage instantiates, and
`instantiationResult` the result it reports, with or without the tries of the block. -/
structure BlockLookup (Trie : Type) where
  mBlockCacheFlat : List (Option (LiveBlock Trie))
  mVerifiedPath : List Bytes
  getMaxNrOfPrunedBlocksToKeepInMemory : ℕ
  getBlockByHash : Bytes → Option (CBlockHeader Trie)
  instantiationResult : Bytes → (instantiateTries : Bool) → eBlockInstantiationResult

namespace BlockLookup

variable (bm : BlockLookup Trie)

/-- A block as the storage hands it out: no parent is set and no work recorded. -/
def fromStorage (hash : Bytes) : Option (LiveBlock Trie) :=
  (bm.getBlockByHash hash).map fun header => { mBlockHeader := header }

def getBlockFlatCache (index : ℕ) : Option (LiveBlock Trie) := (bm.mBlockCacheFlat[index]?).join

def getBlockAtHeightSSDirect (height : ℕ) : Option (LiveBlock Trie) :=
  match bm.mVerifiedPath[height]? with
  | none => none
  | some blockHash => bm.fromStorage blockHash

/-- The last resort of `getBlockAtHeight`. -/
def coldStorageAccess (height : ℕ) : Option (LiveBlock Trie) :=
  match bm.mVerifiedPath[height]? with
  | none => none
  | some blockHash => if blockHash.isEmpty then none else bm.fromStorage blockHash

/-- `getBlockAtHeight` for the verified chain and the height of any block. Its walk over the hot storage
begins at a genesis block that was just instantiated: nothing follows it in memory, and the walk ends
there. -/
def getBlockAtHeight (height : ℕ) : Except Crash (Option (LiveBlock Trie)) :=
  match bm.getBlockFlatCache height with
  | some fastBlock => .ok (some fastBlock)
  | none =>
      let genesis := bm.getBlockAtHeightSSDirect 0
      let cacheSize := bm.getMaxNrOfPrunedBlocksToKeepInMemory
      if bm.mVerifiedPath.length = 0 ∨ bm.mVerifiedPath.length ≤ height then .ok none
      else if 0 < cacheSize ∧ height < cacheSize then
        match genesis with
        | none => .error .nullPointer
        | some genesis => .ok (if height = 0 then some genesis else bm.coldStorageAccess height)
      else .ok (bm.coldStorageAccess height)

end BlockLookup

namespace LiveBlock

/-- `CBlockHeader::getParent`, and the result as it leaves it: a parent found at a height of the main
chain leaves it as it was. -/
def getParent (bm : BlockLookup Trie) (block : LiveBlock Trie) (result : eBlockInstantiationResult)
    (useColdStorage instantiateTries : Bool) :
    Except Crash (Option (LiveBlock Trie) × eBlockInstantiationResult) :=
  let header := block.mBlockHeader
  if header.getHeight = 0 then .ok (none, result)
  else if header.getParentID.length = 0 then .ok (none, .parentMissing)
  else
    match block.mParentBlock with
    | some mParentBlock => .ok (some mParentBlock, .blockFetchedFromCache)
    | none => do
        let parent ← bm.getBlockAtHeight (header.getHeight - 1)
        match parent with
        | some parent => .ok (some parent, result)
        | none =>
            if 0 < header.getParentID.length ∧ useColdStorage then
              let result := bm.instantiationResult header.getParentID instantiateTries
              .ok (bm.fromStorage header.getParentID,
                if result = .OK then .blockFetchedFromSS else result)
            else .ok (none, .Failure)

/-- The parent alone. -/
def parentOf (bm : BlockLookup Trie) (useColdStorage instantiateTries : Bool) (block : LiveBlock Trie) :
    Except Crash (Option (LiveBlock Trie)) :=
  (block.getParent bm .Failure useColdStorage instantiateTries).map Prod.fst

/-- `current = current->getParent(…)` until there is none, for as many turns as `fuel` allows: the blocks
the loop visits. -/
def walk (bm : BlockLookup Trie) (instantiateTries : Bool) :
    (fuel : ℕ) → LiveBlock Trie → Except Crash (List (LiveBlock Trie))
  | 0, current => .ok [current]
  | fuel + 1, current => do
      match ← current.parentOf bm true instantiateTries with
      | none => .ok [current]
      | some parent =>
          let visited ← walk bm instantiateTries fuel parent
          .ok (current :: visited)

/-- The first block is the only one without a parent at height zero. -/
def isGenesis (block : LiveBlock Trie) : Bool :=
  block.mBlockHeader.isKeyBlock && block.mBlockHeader.getHeight == 0

/-- What the first loop of `getTotaWorkDoneInt` visits: it stops at a block whose total work is known,
or at the last before a missing parent. -/
def pathToKnownWork (bm : BlockLookup Trie) :
    (fuel : ℕ) → LiveBlock Trie → Except Crash (List (LiveBlock Trie))
  | 0, current => .ok [current]
  | fuel + 1, current =>
      if current.mTotalWorkDone ≠ 0 then .ok [current]
      else do
        match ← current.parentOf bm true false with
        | none => .ok [current]
        | some parent =>
            let visited ← pathToKnownWork bm fuel parent
            .ok (current :: visited)

/-- The second loop of `getTotaWorkDoneInt`, from the last block that was visited back to the first.
`none` is a block that the path should go on from but does not. -/
def workAlong (getDifficulty : CBlockHeader Trie → ℕ) : List (LiveBlock Trie) → Option ℕ
  | [] => none
  | [last] =>
      if last.mTotalWorkDone ≠ 0 then some last.mTotalWorkDone
      else if last.isGenesis then some (getDifficulty last.mBlockHeader)
      else none
  | current :: rest =>
      (workAlong getDifficulty rest).map fun totalDiff =>
        (totalDiff + getDifficulty current.mBlockHeader) % 2 ^ 64

/-- `getTotaWorkDoneInt`: the total work, or `none` for the result `unknownBlockOnPath`. The first loop
takes no more turns than the block's height, since parents have a smaller one. -/
def getTotaWorkDoneInt (bm : BlockLookup Trie) (getDifficulty : CBlockHeader Trie → ℕ)
    (block : LiveBlock Trie) : Except Crash (Option ℕ) :=
  (block.pathToKnownWork bm block.mBlockHeader.getHeight).map (workAlong getDifficulty)

end LiveBlock

end Gridnet
