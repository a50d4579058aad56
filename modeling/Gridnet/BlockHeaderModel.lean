import Gridnet.PoolModel
import Gridnet.Ber

/-! Block headers: the versions of their layout, `CBlockHeader::instantiate`, which reads a header of a
key block or of a regular one, and `getPackedData`, which writes it. -/

namespace Gridnet

open Ber ASN1_Tag

inductive eTrieID where
  | state
  | transactions
  | receipts
  | verifiables
  deriving DecidableEq, Repr

inductive eBlockchainMode where
  | LIVE
  | TestNet
  | LIVESandBox
  | TestNetSandBox
  | LocalData
  | Unknown
  deriving DecidableEq, Repr

namespace eBERObjectType

abbrev keyBlock : ASN1_Tag := 0
abbrev keyBlockHeader : ASN1_Tag := 1
abbrev regularBlock : ASN1_Tag := 2
abbrev regularBlockHeader : ASN1_Tag := 3

end eBERObjectType

inductive eBlockHeaderInstantiationResult where
  | OK
  | OKRootsFromSS
  | OKVriginRoots
  | parentMissing
  | stateDBFailure
  | transactionsDBFailure
  | receiptsDBFailure
  | failure
  | couldNotPopulateTries
  | invalidBERData
  deriving DecidableEq, Repr

/-- What the constructor of a trie throws: `std::invalid_argument`, or anything else. -/
inductive TrieError where
  | invalid_argument (what : String)
  | other

/-- What blocks use of the node: the crypto factory, the conversions of big numbers and the tries over
its storage. `BytesToBigInt` and `addNode`, which instantiates a transaction, receipt or verifiable and
adds it to a trie, are `none` where they throw. -/
structure ChainServices (Trie : Type) where
  cf : CCryptoFactory
  getEmptyNodeHash : Bytes
  BLOCK_HEADER_LATEST_VERSION : ℕ
  BytesToBigInt : Bytes → Option BigInt
  BigIntToBytes : BigInt → Bytes
  newTrieDB : eTrieID → (rootHash : Bytes) → (trackNodes throwOnError loadRootsFromSS : Bool) →
    Except TrieError Trie
  isEmpty : Trie → Bool
  hasRoot : Trie → Bool
  getPerspective : Trie → Bytes
  trackKnownNodes : Trie → Trie
  addNode : eTrieID → Bytes → Trie → Option Trie
  setIsTrieFullyInRAM : Trie → Trie
  getKnownNodeIDs : Trie → List Bytes

/-! ### Fields -/

/-- The fields of a header that some version writes. -/
inductive HeaderField where
  | mHeight
  | mSolvedAt
  | mKeyHeight
  | mCoreVersion
  | mNonce
  | mTarget
  | mParentKeyBlockID
  | mPublicKey
  | mPaidToLeader
  | mSignature
  | mParentBlockID
  | mUncleBlocksHash
  | mInitiallStateRootID
  | mFinalStateRootID
  | mExtraData
  | mReceiptsRootID
  | mVerifiablesRootID
  | mNrOfVerifiables
  | mNrOfReceipts
  | mTotalReward
  | mTransactionsRootID
  | mLogsBloom
  | mErgLimit
  | mErgUsed
  | mNrOfTransactions
  deriving DecidableEq, Repr

/-- The types of the fields: `size_t`, `std::vector<uint8_t>` and `BigInt`. -/
inductive FieldKind where
  | number
  | octets
  | bigInt
  deriving DecidableEq, Repr

namespace HeaderField

@[reducible] def kind : HeaderField → FieldKind
  | mHeight | mSolvedAt | mKeyHeight | mCoreVersion | mNonce | mTarget => .number
  | mNrOfVerifiables | mNrOfReceipts | mNrOfTransactions => .number
  | mPaidToLeader | mTotalReward | mErgLimit | mErgUsed => .bigInt
  | mParentKeyBlockID | mPublicKey | mSignature | mParentBlockID | mUncleBlocksHash => .octets
  | mInitiallStateRootID | mFinalStateRootID | mExtraData | mReceiptsRootID => .octets
  | mVerifiablesRootID | mTransactionsRootID | mLogsBloom => .octets

end HeaderField

namespace FieldKind

@[reducible] def Value : FieldKind → Type
  | number => ℕ
  | octets => Bytes
  | bigInt => BigInt

instance : (k : FieldKind) → DecidableEq k.Value
  | number => inferInstanceAs (DecidableEq ℕ)
  | octets => inferInstanceAs (DecidableEq Bytes)
  | bigInt => inferInstanceAs (DecidableEq BigInt)

/-- The value of a field that nothing was assigned to. -/
def zero : (k : FieldKind) → k.Value
  | number => (0 : ℕ)
  | octets => []
  | bigInt => (0 : BigInt)

end FieldKind

/-- The values of the fields of a header. -/
abbrev HeaderFields := (f : HeaderField) → f.kind.Value

/-- Numbers are written as `INTEGER`, all else as `OCTET_STRING`. -/
def FieldKind.type_tag : FieldKind → ASN1_Tag
  | .number => INTEGER
  | .octets => OCTET_STRING
  | .bigInt => OCTET_STRING

variable {Trie : Type}

def FieldKind.read (services : ChainServices Trie) : (k : FieldKind) → Bytes → Option k.Value
  | .number, contents => smallInteger contents
  | .octets, contents => some contents
  | .bigInt, contents => services.BytesToBigInt contents

def FieldKind.write (services : ChainServices Trie) : (k : FieldKind) → k.Value → Bytes
  | .number, n => integerContents n
  | .octets, b => b
  | .bigInt, n => services.BigIntToBytes n

/-- One `decode` and one `encode` for every field. -/
def headerCodec (services : ChainServices Trie) : FieldCodec HeaderField fun f => f.kind.Value where
  type_tag f := f.kind.type_tag
  read f := f.kind.read services
  write f := f.kind.write services
  shortTag f := by
    cases f.kind with
    | number => exact shortTag_integer
    | octets => exact shortTag_octets
    | bigInt => exact shortTag_octets

open HeaderField in
/-- What the cases of the switch in `instantiate` read, in this order. There is no case for another
version, and nothing is read. -/
def decodedFields : (version : ℕ) → (isKeyBlock : Bool) → List HeaderField
  | 1, isKeyBlock =>
      [mHeight, mSolvedAt, mKeyHeight] ++
      (if isKeyBlock then [mNonce, mTarget, mParentKeyBlockID, mPublicKey, mPaidToLeader] else []) ++
      [mSignature, mParentBlockID, mUncleBlocksHash, mFinalStateRootID, mExtraData, mReceiptsRootID,
        mVerifiablesRootID, mNrOfVerifiables, mNrOfReceipts, mTotalReward] ++
      (if !isKeyBlock then [mTransactionsRootID, mLogsBloom, mErgLimit, mErgUsed, mNrOfTransactions]
        else [])
  | 2, isKeyBlock =>
      [mHeight, mSolvedAt, mKeyHeight] ++
      (if isKeyBlock then [mNonce, mTarget, mParentKeyBlockID, mPublicKey, mPaidToLeader] else []) ++
      [mSignature, mParentBlockID, mUncleBlocksHash, mInitiallStateRootID, mFinalStateRootID, mExtraData,
        mReceiptsRootID, mVerifiablesRootID, mNrOfVerifiables, mNrOfReceipts, mTotalReward] ++
      (if !isKeyBlock then [mTransactionsRootID, mLogsBloom, mErgLimit, mErgUsed, mNrOfTransactions]
        else [])
  | 3, isKeyBlock =>
      [mHeight, mSolvedAt, mKeyHeight] ++
      (if isKeyBlock then [mNonce, mTarget, mParentKeyBlockID, mPublicKey] else []) ++
      [mPaidToLeader] ++
      [mSignature, mParentBlockID, mUncleBlocksHash, mInitiallStateRootID, mFinalStateRootID, mExtraData,
        mReceiptsRootID, mVerifiablesRootID, mNrOfVerifiables, mNrOfReceipts, mTotalReward] ++
      (if !isKeyBlock then [mTransactionsRootID, mLogsBloom, mErgLimit, mErgUsed, mNrOfTransactions]
        else [])
  | 4, isKeyBlock =>
      [mHeight, mSolvedAt, mKeyHeight, mCoreVersion] ++
      (if isKeyBlock then [mNonce, mTarget, mParentKeyBlockID, mPublicKey] else []) ++
      [mPaidToLeader] ++
      [mSignature, mParentBlockID, mUncleBlocksHash, mInitiallStateRootID, mFinalStateRootID, mExtraData,
        mReceiptsRootID, mVerifiablesRootID, mNrOfVerifiables, mNrOfReceipts, mTotalReward] ++
      (if !isKeyBlock then [mTransactionsRootID, mLogsBloom, mErgLimit, mErgUsed, mNrOfTransactions]
        else [])
  | _, _ => []

/-- The versions for which `instantiate` has a case and `getPackedData` a branch. -/
def KnownVersion (version : ℕ) : Prop := version ∈ [1, 2, 3, 4]

instance (version : ℕ) : Decidable (KnownVersion version) := inferInstanceAs (Decidable (_ ∈ _))

structure CBlockHeader (Trie : Type) where
  mVersion : ℕ
  mIsKeyBlock : Bool
  fields : HeaderFields
  mTransactionsDB : Trie
  mReceiptsDB : Trie
  mVerifiablesDB : Trie
  mHashTemp : Bytes := []
  mTriesLoaded : Bool := false

namespace CBlockHeader

/-- A header as `newBlockHeader` leaves it; `none` where it returns no header. -/
def newBlockHeader (services : ChainServices Trie) (blockchainMode : eBlockchainMode)
    (isKeyBlock : Bool) : Option (CBlockHeader Trie) :=
  if blockchainMode ≠ .TestNet then none
  else
    let emptyNodeHash := services.getEmptyNodeHash
    match services.newTrieDB .transactions emptyNodeHash true true false,
      services.newTrieDB .receipts emptyNodeHash true true false,
      services.newTrieDB .verifiables emptyNodeHash true true false with
    | .ok transactionsDB, .ok receiptsDB, .ok verifiablesDB =>
        let fields : HeaderFields := fun f => f.kind.zero
        let fields := Function.update fields .mTransactionsRootID emptyNodeHash
        let fields := Function.update fields .mReceiptsRootID emptyNodeHash
        let fields := Function.update fields .mVerifiablesRootID emptyNodeHash
        some
          { mVersion := services.BLOCK_HEADER_LATEST_VERSION
            mIsKeyBlock := isKeyBlock
            fields
            mTransactionsDB := transactionsDB
            mReceiptsDB := receiptsDB
            mVerifiablesDB := verifiablesDB }
    | _, _, _ => none

/-- A `return nullptr` of `instantiate`, with what it assigns before to the result and to the error
text; `none` leaves them as they were. -/
structure Failure where
  result : Option eBlockHeaderInstantiationResult := none
  errorInfo : Option String := none

/-- An exception that ends in the last handler of `instantiate`. -/
def Failure.caught : Failure := { result := some .invalidBERData }

/-- The value of a call that throws on `none`. -/
def orCaught {α : Type} : Option α → Except Failure α
  | some a => .ok a
  | none => .error .caught

/-- Whether the outer object of a header is that of a key block; no header is returned for other
objects. -/
def isKeyBlockHeader (obj : BER_Object) : Except Failure Bool :=
  if obj.class_tag ≠ PRIVATE then .error {}
  else if obj.type_tag = eBERObjectType.keyBlockHeader then .ok true
  else if obj.type_tag = eBERObjectType.regularBlockHeader then .ok false
  else .error {}

/-- The check that ends each case of the switch for a regular block. -/
def verifyPerspectives (version : ℕ) (isKeyBlock : Bool) (fields : HeaderFields) :
    Except Failure Unit :=
  if KnownVersion version ∧ !isKeyBlock then
    if !((fields .mFinalStateRootID).length == 32 && (fields .mTransactionsRootID).length == 32 &&
        (fields .mReceiptsRootID).length == 32) then
      .error { result := some .failure, errorInfo := some "TrieDB perspectives are invalid." }
    else .ok ()
  else .ok ()

/-- The part of `instantiate` that reads the header: its kind and version, and the fields over those of
a new header. -/
def readHeader (services : ChainServices Trie) (bh : CBlockHeader Trie) (headerBER : Bytes) :
    Except Failure (CBlockHeader Trie) := do
  let (obj, _) ← orCaught (getNextObject headerBER)
  let mIsKeyBlock ← isKeyBlockHeader obj
  let (mVersion, dec2) ← orCaught (decodeSmall obj.value)
  let (obj, _) ← orCaught (getNextObject dec2)
  let fields ← orCaught <|
    (headerCodec services).decode (decodedFields mVersion mIsKeyBlock) bh.fields obj.value
  verifyPerspectives mVersion mIsKeyBlock fields
  return { bh with mVersion, mIsKeyBlock, fields }

/-- Opens the trie of a root and hands what its constructor throws to the handlers. -/
def openTrie (services : ChainServices Trie) (trie : eTrieID) (rootID : Bytes) (trackNodes : Bool) :
    Except Failure Trie :=
  match services.newTrieDB trie rootID trackNodes false false with
  | .ok db => .ok db
  | .error (.invalid_argument what) => .error { result := some .failure, errorInfo := some what }
  | .error .other => .error .caught

/-- The result when all tries could be opened; whether the roots are virgin is asked of the transactions
alone. -/
def rootsResult (services : ChainServices Trie) (transactionsDB receiptsDB verifiablesDB : Trie) :
    eBlockHeaderInstantiationResult :=
  if services.hasRoot transactionsDB && services.hasRoot receiptsDB && services.hasRoot verifiablesDB then
    if services.isEmpty transactionsDB then .OKVriginRoots else .OKRootsFromSS
  else .failure

/-- The rest of `instantiate`: the tries over the roots that were read. -/
def openTries (services : ChainServices Trie) (bh : CBlockHeader Trie) :
    Except Failure (CBlockHeader Trie × eBlockHeaderInstantiationResult) := do
  let mTransactionsDB ← openTrie services .transactions (bh.fields .mTransactionsRootID) false
  let mReceiptsDB ← openTrie services .receipts (bh.fields .mReceiptsRootID) true
  let mVerifiablesDB ← openTrie services .verifiables (bh.fields .mVerifiablesRootID) false
  let result := rootsResult services mTransactionsDB mReceiptsDB mVerifiablesDB
  if bh.mIsKeyBlock && (bh.fields .mParentKeyBlockID).length != 32 && bh.fields .mHeight != 0 then
    .error { result := some .parentMissing }
  else .ok ({ bh with mTransactionsDB, mReceiptsDB, mVerifiablesDB }, result)

/-- `instantiate` on a header in its packed form: the header, the result and the error text. -/
def instantiate (services : ChainServices Trie) (headerBER : Bytes)
    (result : eBlockHeaderInstantiationResult) (errorInfo : String) (blockchainMode : eBlockchainMode) :
    Option (CBlockHeader Trie) × eBlockHeaderInstantiationResult × String :=
  match newBlockHeader services blockchainMode true with
  | none => (none, result, errorInfo)
  | some bh =>
      match (do openTries services (← readHeader services bh headerBER)) with
      | .ok (bh, result) => (some bh, result, errorInfo)
      | .error failure =>
          (none, failure.result.getD result, failure.errorInfo.getD errorInfo)

theorem orCaught_ok {α : Type} {value : Option α} {a : α} (hok : orCaught value = .ok a) :
    value = some a := by
  cases value with
  | none => cases hok
  | some b => rw [Except.ok.inj hok]

theorem bind_ok {α β : Type} {x : Except Failure α} {f : α → Except Failure β} {b : β}
    (hok : x >>= f = .ok b) : ∃ a, x = .ok a ∧ f a = .ok b := by
  cases x with
  | error failure => cases hok
  | ok a => exact ⟨a, rfl, hok⟩

/-- What was read when a header is. -/
theorem readHeader_ok {services : ChainServices Trie} {bh read : CBlockHeader Trie} {headerBER : Bytes}
    (hread : readHeader services bh headerBER = .ok read) :
    ∃ outer rest dec2 inner rest',
      getNextObject headerBER = some (outer, rest) ∧
      isKeyBlockHeader outer = .ok read.mIsKeyBlock ∧
      decodeSmall outer.value = some (read.mVersion, dec2) ∧
      getNextObject dec2 = some (inner, rest') ∧
      (headerCodec services).decode (decodedFields read.mVersion read.mIsKeyBlock) bh.fields
        inner.value = some read.fields ∧
      verifyPerspectives read.mVersion read.mIsKeyBlock read.fields = .ok () := by
  obtain ⟨⟨outer, rest⟩, houter, hread⟩ := bind_ok hread
  obtain ⟨mIsKeyBlock, hkind, hread⟩ := bind_ok hread
  obtain ⟨⟨mVersion, dec2⟩, hversion, hread⟩ := bind_ok hread
  obtain ⟨⟨inner, rest'⟩, hinner, hread⟩ := bind_ok hread
  obtain ⟨fields, hfields, hread⟩ := bind_ok hread
  obtain ⟨_, hverify, hread⟩ := bind_ok hread
  cases hread
  exact ⟨outer, rest, dec2, inner, rest', orCaught_ok houter, hkind, orCaught_ok hversion,
    orCaught_ok hinner, orCaught_ok hfields, hverify⟩

/-- What holds of the tries and the key-block parent when they do not fail. -/
theorem openTries_ok {services : ChainServices Trie} {read bh : CBlockHeader Trie}
    {result : eBlockHeaderInstantiationResult} (hopen : openTries services read = .ok (bh, result)) :
    (bh.mVersion = read.mVersion ∧ bh.mIsKeyBlock = read.mIsKeyBlock ∧ bh.fields = read.fields) ∧
      (read.mIsKeyBlock = true → read.fields .mHeight ≠ (0 : ℕ) →
        (read.fields .mParentKeyBlockID).length = 32) := by
  obtain ⟨transactionsDB, _, hopen⟩ := bind_ok hopen
  obtain ⟨receiptsDB, _, hopen⟩ := bind_ok hopen
  obtain ⟨verifiablesDB, _, hopen⟩ := bind_ok hopen
  dsimp only at hopen
  split_ifs at hopen with hparent
  cases hopen
  refine ⟨⟨rfl, rfl, rfl⟩, fun hkey hheight => ?_⟩
  by_contra hlen
  exact hparent (by simp [hkey, hlen, hheight])

/-- A header is instantiated from what was read, over the fields of a new one. -/
theorem instantiate_some {services : ChainServices Trie} {headerBER : Bytes}
    {result result' : eBlockHeaderInstantiationResult} {errorInfo info : String}
    {blockchainMode : eBlockchainMode} {header : CBlockHeader Trie}
    (hinst : instantiate services headerBER result errorInfo blockchainMode =
      (some header, result', info)) :
    ∃ bh, ∃ read : CBlockHeader Trie, readHeader services bh headerBER = .ok read ∧
      openTries services read = .ok (header, result') := by
  unfold instantiate at hinst
  split at hinst
  · cases hinst
  · rename_i bh _
    split at hinst
    · rename_i hok
      obtain ⟨read, hread, hopen⟩ := bind_ok hok
      cases hinst
      exact ⟨bh, read, hread, hopen⟩
    · cases hinst

/-! ### Packing -/

open HeaderField in
/-- What the branches of `getPackedData` write, in this order. -/
def packedFields : (version : ℕ) → (isKeyBlock : Bool) → List HeaderField
  | 1, isKeyBlock =>
      [mHeight, mSolvedAt, mKeyHeight] ++
      (if isKeyBlock then [mNonce, mTarget, mParentKeyBlockID, mPublicKey, mPaidToLeader] else []) ++
      [mSignature] ++
      [mParentBlockID, mUncleBlocksHash, mFinalStateRootID, mExtraData, mReceiptsRootID,
        mVerifiablesRootID, mNrOfVerifiables, mNrOfReceipts, mTotalReward] ++
      (if !isKeyBlock then [mTransactionsRootID, mLogsBloom, mErgLimit, mErgUsed, mNrOfTransactions]
        else [])
  | 2, isKeyBlock =>
      [mHeight, mSolvedAt, mKeyHeight] ++
      (if isKeyBlock then [mNonce, mTarget, mParentKeyBlockID, mPublicKey, mPaidToLeader] else []) ++
      [mSignature] ++
      [mParentBlockID, mUncleBlocksHash, mInitiallStateRootID, mFinalStateRootID, mExtraData,
        mReceiptsRootID, mVerifiablesRootID, mNrOfVerifiables, mNrOfReceipts, mTotalReward] ++
      (if !isKeyBlock then [mTransactionsRootID, mLogsBloom, mErgLimit, mErgUsed, mNrOfTransactions]
        else [])
  | 3, isKeyBlock =>
      [mHeight, mSolvedAt, mKeyHeight] ++
      (if isKeyBlock then [mNonce, mTarget, mParentKeyBlockID, mPublicKey] else []) ++
      [mPaidToLeader] ++ [mSignature] ++
      [mParentBlockID, mUncleBlocksHash, mInitiallStateRootID, mFinalStateRootID, mExtraData,
        mReceiptsRootID, mVerifiablesRootID, mNrOfVerifiables, mNrOfReceipts, mTotalReward] ++
      (if !isKeyBlock then [mTransactionsRootID, mLogsBloom, mErgLimit, mErgUsed, mNrOfTransactions]
        else [])
  | 4, isKeyBlock =>
      [mHeight, mSolvedAt, mKeyHeight, mCoreVersion] ++
      (if isKeyBlock then [mNonce, mTarget, mParentKeyBlockID, mPublicKey] else []) ++
      [mPaidToLeader] ++ [mSignature] ++
      [mParentBlockID, mUncleBlocksHash, mInitiallStateRootID, mFinalStateRootID, mExtraData,
        mReceiptsRootID, mVerifiablesRootID, mNrOfVerifiables, mNrOfReceipts, mTotalReward] ++
      (if !isKeyBlock then [mTransactionsRootID, mLogsBloom, mErgLimit, mErgUsed, mNrOfTransactions]
        else [])
  | _, _ => []

def validate (header : CBlockHeader Trie) (requireSig : Bool) : Bool :=
  if header.mIsKeyBlock && (header.fields .mPublicKey).length != 32 then false
  else if header.mIsKeyBlock &&
      (0 < header.fields .mHeight && (header.fields .mParentKeyBlockID).length != 32) then false
  else if 0 < header.fields .mHeight && (header.fields .mParentBlockID).length != 32 then false
  else if requireSig && (header.fields .mSignature).length == 0 then false
  else true

/-- A root that is not set is assigned the hash of the trie's perspective. -/
def fillRoot (services : ChainServices Trie) (db : Trie) (rootID : Bytes) : Bytes :=
  if rootID.length = 0 then services.cf.getSHA2_256Vec (services.getPerspective db) else rootID

/-- The roots that `getPackedData` assigns before it writes them. A key block has no transactions. -/
def fillRoots (services : ChainServices Trie) (header : CBlockHeader Trie) : CBlockHeader Trie :=
  let fields := header.fields
  let fields :=
    if header.mIsKeyBlock then fields
    else Function.update fields .mTransactionsRootID
      (fillRoot services header.mTransactionsDB (fields .mTransactionsRootID))
  let fields := Function.update fields .mReceiptsRootID
    (fillRoot services header.mReceiptsDB (fields .mReceiptsRootID))
  let fields := Function.update fields .mVerifiablesRootID
    (fillRoot services header.mVerifiablesDB (fields .mVerifiablesRootID))
  { header with fields }

/-- One call of `encode`; the place of a signature that is left out is taken by a `NULL`. -/
def packField (services : ChainServices Trie) (header : CBlockHeader Trie) (includeSig : Bool)
    (f : HeaderField) : Bytes :=
  if f = .mSignature ∧ !includeSig then encodeNull
  else
    let codec := headerCodec services
    addObject (codec.type_tag f) UNIVERSAL (codec.write f (header.fields f))

/-- What one branch of `getPackedData` writes. -/
def packed (services : ChainServices Trie) (header : CBlockHeader Trie) (includeSig : Bool) : Bytes :=
  cons (if header.mIsKeyBlock then eBERObjectType.keyBlockHeader else eBERObjectType.regularBlockHeader)
    PRIVATE <|
    encodeSmall header.mVersion ++
    cons SEQUENCE UNIVERSAL
      ((packedFields header.mVersion header.mIsKeyBlock).flatMap (packField services header includeSig))

/-- `getPackedData`: whether it succeeded, what it leaves in `data`, and the header with the roots it
assigned. -/
def getPackedData (services : ChainServices Trie) (header : CBlockHeader Trie) (data : Bytes)
    (includeSig : Bool) : Bool × Bytes × CBlockHeader Trie :=
  if !header.validate includeSig then (false, [], header)
  else if KnownVersion header.mVersion then
    let header := header.fillRoots services
    (true, header.packed services includeSig, header)
  else (false, data, header)

/-- `getHash`; `none` where the assertion that the header can be packed fails. -/
def getHash (services : ChainServices Trie) (header : CBlockHeader Trie) (allowedCashed : Bool) :
    Option (Bytes × CBlockHeader Trie) :=
  if allowedCashed && !header.mHashTemp.isEmpty then some (header.mHashTemp, header)
  else
    match header.getPackedData services [] true with
    | (true, temp, header) =>
        let hash := services.cf.getSHA2_256Vec temp
        some (hash, { header with mHashTemp := hash })
    | (false, _, _) => none

end CBlockHeader

end Gridnet
