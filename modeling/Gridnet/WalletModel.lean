import Gridnet.PoolModel

/-! Token pools of the web wallet, the classes of `StateLessChannels.js`. Its numbers are unbounded;
the hash and the signature check are those of the node, and `bigIntToArrayBufferNew` writes the
bytes of the node's `BigIntToBytes`, as the source asks of it. -/

namespace Gridnet.Wallet

/-- The exceptions that the functions below run into. -/
inductive JsError where
  | typeError
  | referenceError
  deriving DecidableEq, Repr

structure CTransmissionToken where
  mVersion : ℕ := 1
  mBankIndex : ℕ
  mValue : ℕ
  mRevealedHash : Bytes
  mRevealedHashesCount : ℕ
  mBankUsageDepth : ℕ
  mDataHash : Bytes := []
  mTokenPoolID : Bytes := []
  mSig : Bytes := []
  mRecipient : Bytes := []
  deriving DecidableEq, Repr

def CTransmissionToken.getPackedData (token : CTransmissionToken) (includeSig : Bool) : Asn1 :=
  .sequence [.integer token.mVersion, .sequence (
    [.octets token.mRevealedHash,
      .integer token.mBankIndex,
      .octets (BigIntToBytes token.mBankUsageDepth),
      .octets (BigIntToBytes token.mRevealedHashesCount),
      .octets token.mTokenPoolID,
      .octets token.mDataHash,
      .octets (BigIntToBytes token.mValue)] ++
    if includeSig then
      .octets token.mSig :: if token.mRecipient.length > 0 then [.octets token.mRecipient] else []
    else [])]

/-- `numberDepth` marks a depth that is still the plain number of the constructor, which does not add to a
`BigInt`. Every other depth a bank is given is a `BigInt`. -/
structure CTokenPoolBank where
  mID : ℕ
  mCurrentDepth : ℕ := 0
  numberDepth : Bool := true
  mStatus : eTokenPoolBankStatus := .active
  mFinalHash : Bytes := []
  mSeedHash : Bytes := []
  mCurrentFinalHash : Bytes := []
  mPreCachedSeedHash : Bytes := []
  mPreCachedSeedHashDepth : ℕ := 0
  deriving DecidableEq, Repr

structure CTokenPool where
  mBanks : List CTokenPoolBank := []
  mDimensionsCount : ℕ := 0
  mDimensionDepth : ℕ := 0
  mTotalValue : ℕ := 0
  mTokenPoolID : Bytes := []
  mStatus : eTokenPoolStatus := .active
  mPubKey : Bytes := []
  deriving DecidableEq, Repr

/-! ### Values and look-ups -/

def CTokenPool.getSingleTokenValue (pool : CTokenPool) : ℕ :=
  if pool.mDimensionDepth = 0 ∨ pool.mDimensionsCount = 0 then 0
  else pool.mTotalValue / (pool.mDimensionDepth * pool.mDimensionsCount)

def CTokenPool.getTotalValue (pool : CTokenPool) : ℕ := pool.mTotalValue

def CTokenPool.getBankById (pool : CTokenPool) (id : ℕ) : Option CTokenPoolBank := pool.mBanks[id]?

def CTokenPoolBank.getFinalHash (bank : CTokenPoolBank) (currentOne : Bool) : Bytes :=
  if currentOne = false ∨ bank.mCurrentFinalHash.length ≠ 32 then bank.mFinalHash
  else bank.mCurrentFinalHash

/-- The difference of two numbers, negative for a bank deeper than its pool. -/
def CTokenPoolBank.getValueLeft (bank : CTokenPoolBank) (pool : CTokenPool) : ℤ :=
  if bank.mStatus = .depleted then 0
  else if pool.mDimensionDepth = 0 ∨ bank.mCurrentDepth = pool.mDimensionDepth then 0
  else ((pool.mDimensionDepth : ℤ) - bank.mCurrentDepth) * pool.getSingleTokenValue

def CTokenPoolBank.setPreCachedSeedHash (bank : CTokenPoolBank) (seed : Bytes) (depth : ℕ) :
    CTokenPoolBank :=
  if seed.length ≠ 32 then bank
  else { bank with mPreCachedSeedHash := seed, mPreCachedSeedHashDepth := depth }

/-! ### Status changes -/

def CTokenPool.notifyBankStatusChanged (pool : CTokenPool) (status : eTokenPoolBankStatus) :
    CTokenPool :=
  match status with
  | .active => pool
  | .depleted =>
      if pool.mBanks.all (fun bank => bank.mStatus = .depleted) then
        { pool with mStatus := .depleted }
      else pool

def CTokenPool.modifyBank (pool : CTokenPool) (id : ℕ) (f : CTokenPoolBank → CTokenPoolBank) :
    CTokenPool :=
  { pool with mBanks := pool.mBanks.modify id f }

def CTokenPool.setBankStatus (pool : CTokenPool) (id : ℕ) (status : eTokenPoolBankStatus) :
    CTokenPool :=
  (pool.modifyBank id fun bank => { bank with mStatus := status }).notifyBankStatusChanged status

/-! ### Verification -/

/-- What a valid token changes in its bank. A bank update only makes more of the chain spendable. -/
def CTokenPoolBank.take (bank : CTokenPoolBank) (token : CTransmissionToken)
    (isBankUpdate : Bool) : CTokenPoolBank :=
  if isBankUpdate then bank.setPreCachedSeedHash token.mRevealedHash token.mBankUsageDepth
  else { bank with
    mCurrentFinalHash := token.mRevealedHash
    mCurrentDepth := token.mBankUsageDepth
    numberDepth := false }

/-- The state update of `validateTT`. -/
def CTokenPool.record (pool : CTokenPool) (token : CTransmissionToken) (bank : CTokenPoolBank)
    (isBankUpdate : Bool) : CTokenPool :=
  let updated := bank.take token isBankUpdate
  let moved := pool.modifyBank token.mBankIndex fun _ => updated
  if pool.mDimensionDepth ≤ updated.mCurrentDepth then
    moved.setBankStatus token.mBankIndex .depleted
  else moved

/-- The value of a token and the pool after it; `none` where the source returns `false`. -/
def CTokenPool.validateTT (pool : CTokenPool) (cf : CCryptoFactory) (token : CTransmissionToken)
    (updateState isBankUpdate : Bool) : Option ℕ × CTokenPool :=
  if pool.mStatus ≠ .active then (some 0, pool)
  else if pool.mPubKey.length = 32 ∧ token.mSig.length > 0 ∧
      cf.verifySignature token.mSig (token.getPackedData false) pool.mPubKey = false then
    (none, pool)
  else if token.mRevealedHashesCount = 0 then (some 0, pool)
  else if pool.getTotalValue < token.mValue then (some 0, pool)
  else match pool.getBankById token.mBankIndex with
    | none => (some 0, pool)
    | some bank =>
        if bank.mStatus = .depleted then (some 0, pool)
        else if bank.getValueLeft pool < token.mValue then (some 0, pool)
        else if token.mBankUsageDepth ≤ bank.mCurrentDepth then (some 0, pool)
        else if token.mRevealedHash.length ≠ 32 ∨ (bank.getFinalHash true).length ≠ 32 then
          (some 0, pool)
        else if cf.getSHA2_256Vec^[token.mRevealedHashesCount] token.mRevealedHash ≠
            bank.getFinalHash true then (none, pool)
        else (some (pool.getSingleTokenValue * token.mRevealedHashesCount),
          if updateState then pool.record token bank isBankUpdate else pool)

/-! ### Issuing -/

def CTokenPoolBank.walkStart (bank : CTokenPoolBank) (pool : CTokenPool) (depth : ℕ) :
    Option (Bytes × ℕ) :=
  if depth ≤ bank.mCurrentDepth ∧ bank.mCurrentFinalHash.length = 32 then
    some (bank.mCurrentFinalHash, bank.mCurrentDepth)
  else if depth ≤ bank.mPreCachedSeedHashDepth ∧ bank.mPreCachedSeedHash.length = 32 then
    some (bank.mPreCachedSeedHash, bank.mPreCachedSeedHashDepth)
  else if bank.mSeedHash.length = 32 then some (bank.mSeedHash, pool.mDimensionDepth)
  else none

def CTokenPool.markUsed (pool : CTokenPool) (id : ℕ) (bank : CTokenPoolBank) (depth : ℕ)
    (currentHash : Bytes) : CTokenPool :=
  let used :=
    { bank with mCurrentDepth := depth, numberDepth := false, mCurrentFinalHash := currentHash }
  let moved := pool.modifyBank id fun _ => used
  if used.getValueLeft moved = 0 then moved.setBankStatus id .depleted else moved

def CTokenPool.getHashAtDepth (pool : CTokenPool) (cf : CCryptoFactory) (id : ℕ)
    (bank : CTokenPoolBank) (depth : ℕ) (updateState : Bool) : Option Bytes × CTokenPool :=
  if depth = 0 then (some bank.mFinalHash, pool)
  else if pool.mDimensionDepth < depth then (none, pool)
  else match bank.walkStart pool depth with
    | none => (none, pool)
    | some (startHash, currentDepth) =>
        let currentHash := cf.getSHA2_256Vec^[currentDepth - depth] startHash
        (some currentHash, if updateState ∧ bank.mCurrentDepth < depth then
          pool.markUsed id bank depth currentHash else pool)

/-- The last hash of a token worth a value and the number of hashes it uses up. Where a token is worth
nothing it returns a name that is not declared; the depth of the constructor does not add to the number of
hashes. -/
def CTokenPool.genTokenWorthValue (pool : CTokenPool) (cf : CCryptoFactory) (id : ℕ)
    (bank : CTokenPoolBank) (value : ℕ) (markUsed : Bool) :
    Except JsError (Option (Bytes × ℕ)) × CTokenPool :=
  if value = 0 ∨ bank.getValueLeft pool < value then (.ok none, pool)
  else if pool.getSingleTokenValue = 0 then (.error .referenceError, pool)
  else if bank.numberDepth then (.error .typeError, pool)
  else
    let hashesConsumedCount := 1 + (value - 1) / pool.getSingleTokenValue
    let walked := pool.getHashAtDepth cf id bank (bank.mCurrentDepth + hashesConsumedCount) markUsed
    (.ok (walked.1.map fun hash => (hash, hashesConsumedCount)), walked.2)

/-- The expected depth is taken from the bank as `genTokenWorthValue` left it. -/
def CTokenPool.genTTWorthValue (pool : CTokenPool) (cf : CCryptoFactory) (id : ℕ)
    (bank : CTokenPoolBank) (value : ℕ) (markUsed : Bool) :
    Except JsError (Option CTransmissionToken) × CTokenPool :=
  let generated := pool.genTokenWorthValue cf id bank value markUsed
  match generated.1 with
  | .error error => (.error error, generated.2)
  | .ok none => (.ok none, generated.2)
  | .ok (some rawToken) =>
      let mCurrentDepth := (generated.2.mBanks[id]?.getD bank).mCurrentDepth
      let expectedDepth := mCurrentDepth + rawToken.2
      if rawToken.1.length ≠ 32 then (.ok none, generated.2)
      else
        (.ok (some
          { mBankIndex := bank.mID, mValue := value, mRevealedHash := rawToken.1
            mRevealedHashesCount := rawToken.2, mBankUsageDepth := expectedDepth
            mTokenPoolID := pool.mTokenPoolID }), generated.2)

/-! ### The wire -/

/-- What the node reads from a packed token of the wallet. -/
def CTransmissionToken.toNode (token : CTransmissionToken) : Gridnet.CTransmissionToken :=
  { mVersion := .ofNat token.mVersion
    mBankIndex := .ofNat token.mBankIndex
    mValue := .ofNat 256 token.mValue
    mRevealedHash := token.mRevealedHash
    mRevealedHashesCount := .ofNat 256 token.mRevealedHashesCount
    mBankUsageDepth := .ofNat 256 token.mBankUsageDepth
    mDataHash := token.mDataHash
    mTokenPoolID := token.mTokenPoolID
    mSig := token.mSig
    mRecipient := token.mRecipient }

/-- What the wallet reads from a packed token of the node. -/
def CTransmissionToken.ofNode (token : Gridnet.CTransmissionToken) : CTransmissionToken :=
  { mVersion := token.mVersion.toNat
    mBankIndex := token.mBankIndex.toNat
    mValue := token.mValue.toNat
    mRevealedHash := token.mRevealedHash
    mRevealedHashesCount := token.mRevealedHashesCount.toNat
    mBankUsageDepth := token.mBankUsageDepth.toNat
    mDataHash := token.mDataHash
    mTokenPoolID := token.mTokenPoolID
    mSig := token.mSig
    mRecipient := token.mRecipient }

end Gridnet.Wallet
