import Gridnet.BlockHeaderModel

/-! Blocks: `CBlock::instantiateBlock` with the tries it loads from the body of the block, and the
identifiers of a block, taken from the bytes of its header or computed from its fields. -/

namespace Gridnet

open Ber ASN1_Tag

inductive eBlockInstantiationResult where
  | OK
  | Failure
  | headerInstantationFailure
  | parentMissing
  | blockFetchedFromCache
  | blockFetchedFromSS
  | blockFetchedFromPointer
  | blockDataUnavailableInCS
  | blockInstantiatedTransactionTrieNodesMissing
  | blockInstantiatedVerifiablesTrieNodesMissing
  | blockInstantiatedReceiptsTrieNodesMissing
  deriving DecidableEq, Repr

variable {Trie : Type}

structure CBlock (Trie : Type) where
  mVersion : ℕ := 1
  mSize : ℕ := 0
  mBlockHeader : CBlockHeader Trie
  mTemporalID : Bytes := []
  mID : Bytes := []
  mTransactionIDs : List Bytes := []
  mVerifiablesIDs : List Bytes := []
  mReceiptsIDs : List Bytes := []

/-! ### Tries -/

namespace CBlockHeader

/-- The loop over the objects of one trie: it stops at the first that is not an octet string. The flag
is false where an object cannot be read or added. Every turn reads an object, so that the bytes bound
the turns. -/
def addNodes (services : ChainServices Trie) (trie : eTrieID) :
    (turns : ℕ) → (db : Trie) → (dec3 : Bytes) → Bool × Trie
  | 0, db, _ => (true, db)
  | turns + 1, db, dec3 =>
      if dec3.isEmpty then (true, db)
      else
        match getNextObject dec3 with
        | none => (false, db)
        | some (obj, dec3) =>
            if obj.type_tag = OCTET_STRING then
              match services.addNode trie obj.value db with
              | none => (false, db)
              | some db => addNodes services trie turns db dec3
            else (true, db)

/-- One trie loaded from the bytes of its sequence. The flag tells whether its perspective is then the
claimed one. -/
def loadTrie (services : ChainServices Trie) (trie : eTrieID) (db : Trie) (claimed dec3 : Bytes) :
    Bool × Trie :=
  match addNodes services trie (dec3.length + 1) (services.trackKnownNodes db) dec3 with
  | (false, db) => (false, db)
  | (true, db) =>
      if (services.getPerspective db).take 32 ≠ claimed.take 32 then (false, db)
      else (true, services.setIsTrieFullyInRAM db)

/-- The loop of `loadTries` over the tries that are left, in the order of their sequences. -/
def loadSequences (services : ChainServices Trie) :
    List eTrieID → (header : CBlockHeader Trie) → (dec2 : Bytes) → Bool × CBlockHeader Trie
  | [], header, _ => (true, header)
  | trie :: tries, header, dec2 =>
      match getNextObject dec2 with
      | none => (false, header)
      | some (obj, dec2) =>
          match trie with
          | .state => loadSequences services tries header dec2
          | .transactions =>
              let (ok, db) := loadTrie services .transactions header.mTransactionsDB
                (header.fields .mTransactionsRootID) obj.value
              let header := { header with mTransactionsDB := db }
              if ok then loadSequences services tries header dec2 else (false, header)
          | .receipts =>
              let (ok, db) := loadTrie services .receipts header.mReceiptsDB
                (header.fields .mReceiptsRootID) obj.value
              let header := { header with mReceiptsDB := db }
              if ok then loadSequences services tries header dec2 else (false, header)
          | .verifiables =>
              let (ok, db) := loadTrie services .verifiables header.mVerifiablesDB
                (header.fields .mVerifiablesRootID) obj.value
              let header := { header with mVerifiablesDB := db }
              if ok then loadSequences services tries header dec2 else (false, header)

/-- `case 1` of `loadTries`. A key block has no sequence of transactions. -/
def loadBody (services : ChainServices Trie) (header : CBlockHeader Trie) (dec2 : Bytes) :
    Bool × CBlockHeader Trie :=
  match getNextObject dec2 with
  | none => (false, header)
  | some (obj, dec2) =>
      if obj.type_tag ≠ OCTET_STRING then (false, header)
      else
        loadSequences services
          (if header.mIsKeyBlock then [.receipts, .verifiables]
            else [.transactions, .receipts, .verifiables])
          header dec2

/-- `loadTries` for a header that was just instantiated, on the packed form of its block, which is not
empty. -/
def loadTries (services : ChainServices Trie) (header : CBlockHeader Trie) (blockBER : Bytes) :
    Bool × CBlockHeader Trie :=
  match (do
      let (ob, _) ← getNextObject blockBER
      if ob.type_tag ≠ eBERObjectType.keyBlock ∧ ob.type_tag ≠ eBERObjectType.regularBlock then none
      else decodeSmall ob.value) with
  | none => (false, header)
  | some (version, dec2) =>
      if !((header.fields .mTransactionsRootID).length == 32 &&
          (header.fields .mReceiptsRootID).length == 32 &&
          (header.fields .mVerifiablesRootID).length == 32) then
        (false, header)
      else
        let (loaded, header) := if version = 1 then loadBody services header dec2 else (true, header)
        (loaded, { header with mTriesLoaded := loaded })

end CBlockHeader

/-! ### Blocks -/

namespace CBlock

def newBlock (services : ChainServices Trie) (blockchainMode : eBlockchainMode) :
    Option (CBlock Trie) :=
  (CBlockHeader.newBlockHeader services blockchainMode true).map fun header =>
    { mBlockHeader := header }

/-- The outermost object of a block: its version and what follows it. `none` where no block is
returned: the object cannot be read, or is not that of a block. -/
def readBlock (blockBER : Bytes) : Option (ℕ × Bytes) := do
  let (ob, _) ← getNextObject blockBER
  if ob.class_tag ≠ PRIVATE then none
  else if ob.type_tag ≠ eBERObjectType.keyBlock ∧ ob.type_tag ≠ eBERObjectType.regularBlock then none
  else decodeSmall ob.value

/-- The tries of the header, and the identifiers of what they hold. The result is `Failure` where they
could not be loaded. -/
def populateTries (services : ChainServices Trie) (block : CBlock Trie) (blockBER : Bytes) :
    CBlock Trie × eBlockInstantiationResult :=
  let (loaded, header) := block.mBlockHeader.loadTries services blockBER
  ({ block with
      mBlockHeader := header
      mTransactionIDs := services.getKnownNodeIDs header.mTransactionsDB
      mVerifiablesIDs := services.getKnownNodeIDs header.mVerifiablesDB
      mReceiptsIDs := services.getKnownNodeIDs header.mReceiptsDB },
    if loaded then .OK else .Failure)

/-- `case 1` of `instantiateBlock`, from the header data on. -/
def instantiateBody (services : ChainServices Trie) (pupulateTries : Bool) (block : CBlock Trie)
    (blockBER headerData : Bytes) (blockchainMode : eBlockchainMode) :
    Option (CBlock Trie) × eBlockInstantiationResult × String :=
  match CBlockHeader.instantiate services headerData .OK "" blockchainMode with
  | (none, _, mErrorInfo) => (none, .headerInstantationFailure, mErrorInfo)
  | (some header, resultHeader, mErrorInfo) =>
      let block := { block with mBlockHeader := header }
      if !header.mIsKeyBlock && resultHeader == .OKRootsFromSS || resultHeader == .OKVriginRoots then
        let tempID := services.cf.getSHA2_256Vec headerData
        let (block, result) :=
          if pupulateTries then populateTries services block blockBER else (block, .OK)
        (some { block with mTemporalID := tempID }, result, mErrorInfo)
      else (none, .Failure, mErrorInfo)

/-- `instantiateBlock`: the block, the result and the error text. Where the mode has no blocks the code
goes on without one and ends at a null pointer. -/
def instantiateBlock (services : ChainServices Trie) (pupulateTries : Bool) (blockBER : Bytes)
    (result : eBlockInstantiationResult) (errorInfo : String) (blockchainMode : eBlockchainMode) :
    Option (CBlock Trie) × eBlockInstantiationResult × String :=
  match newBlock services blockchainMode with
  | none => (none, result, errorInfo)
  | some block =>
      let block := { block with mSize := blockBER.length }
      match readBlock blockBER with
      | none => (none, result, errorInfo)
      | some (mVersion, dec2) =>
          let block := { block with mVersion }
          if mVersion = 1 then
            match getNextObject dec2 with
            | none => (none, result, errorInfo)
            | some (obj, _) =>
                if obj.type_tag ≠ OCTET_STRING then (none, .Failure, "")
                else
                  match instantiateBody services pupulateTries block blockBER obj.value blockchainMode with
                  | (none, result, mErrorInfo) => (none, result, mErrorInfo)
                  | (some block, result, _) => (some block, result, errorInfo)
          -- no other case: the block keeps its new header
          else (some block, result, errorInfo)

/-! ### Identifiers -/

def getID (services : ChainServices Trie) (block : CBlock Trie) (refresh : Bool) : Bytes × CBlock Trie :=
  if refresh || block.mID.isEmpty then
    match block.mBlockHeader.getPackedData services block.mID true with
    | (true, packed, header) =>
        let mID := services.cf.getSHA2_256Vec packed
        (mID, { block with mID, mBlockHeader := header })
    | (false, mID, header) => (mID, { block with mID, mBlockHeader := header })
  else (block.mID, block)

def getHotStorageID (services : ChainServices Trie) (block : CBlock Trie) : Bytes × CBlock Trie :=
  if block.mTemporalID.length = 32 then (block.mTemporalID, block)
  else
    match block.mBlockHeader.getPackedData services [] true with
    | (true, temp, header) =>
        let mTemporalID := services.cf.getSHA2_256Vec temp
        (mTemporalID, { block with mTemporalID, mBlockHeader := header })
    | (false, _, header) => (block.mTemporalID, { block with mBlockHeader := header })

end CBlock

end Gridnet
