import Gridnet.Bytes
import Gridnet.HashChain

/-! Token pools of the node: `CTransmissionToken`, `CTokenPoolBank` and `CTokenPool`. A bank
reaches its pool through a weak pointer that is always set to the pool holding it, so the functions
of a bank take that pool as an argument. `BigFloat` quotients are taken exact. -/

namespace Gridnet

inductive eTokenPoolStatus where
  | active
  | depleted
  | banned
  deriving DecidableEq, Repr

inductive eTokenPoolBankStatus where
  | active
  | depleted
  deriving DecidableEq, Repr

/-- The part of the crypto factory pools use: the hash, whose values are 32 bytes long, and the
check of a signature over the DER bytes of an object. -/
structure CCryptoFactory where
  getSHA2_256Vec : Bytes → Bytes
  getSHA2_256Vec_length : ∀ data, (getSHA2_256Vec data).length = 32
  verifySignature : Bytes → Asn1 → Bytes → Bool

structure CTransmissionToken where
  mVersion : UInt64 := 1
  mBankIndex : UInt64
  mValue : BigInt
  mRevealedHash : Bytes
  mRevealedHashesCount : BigInt
  mBankUsageDepth : BigInt
  mDataHash : Bytes := []
  mTokenPoolID : Bytes := []
  mSig : Bytes := []
  mRecipient : Bytes := []
  deriving DecidableEq, Repr

/-- The packed token; the signature and the recipient are only there when `includeSig` is set, the
recipient only when it is not empty. -/
def CTransmissionToken.getPackedData (token : CTransmissionToken) (includeSig : Bool) : Asn1 :=
  .sequence [.integer token.mVersion.toNat, .sequence (
    [.octets token.mRevealedHash,
      .integer token.mBankIndex.toNat,
      .octets (BigIntToBytes token.mBankUsageDepth.toNat),
      .octets (BigIntToBytes token.mRevealedHashesCount.toNat),
      .octets token.mTokenPoolID,
      .octets token.mDataHash,
      .octets (BigIntToBytes token.mValue.toNat)] ++
    if includeSig then
      .octets token.mSig :: if token.mRecipient.length > 0 then [.octets token.mRecipient] else []
    else [])]

structure CTokenPoolBank where
  mID : UInt64
  mCurrentDepth : BigInt := 0
  mStatus : eTokenPoolBankStatus := .active
  mFinalHash : Bytes := []
  mSeedHash : Bytes := []
  mCurrentIndex : BigInt := 0
  mCurrentFinalHash : Bytes := []
  mPreCachedSeedHash : Bytes := []
  mPreCachedSeedHashDepth : BigInt := 0
  deriving DecidableEq, Repr

structure CTokenPool where
  mBanks : List CTokenPoolBank := []
  mDimensionsCount : UInt64 := 0
  mDimensionDepth : BigInt := 0
  mTotalValue : BigInt := 0
  mReceiptID : Bytes := []
  mTokenPoolID : Bytes := []
  mMasterSeedHash : Bytes := []
  mFriendlyID : Bytes := []
  mOwnerID : Bytes := []
  mVersion : UInt64 := 2
  mStatus : eTokenPoolStatus := .active
  mPubKey : Bytes := []
  deriving DecidableEq, Repr

/-! ### Values and look-ups -/

/-- `floor(mTotalValue / (mDimensionDepth * mDimensionsCount))`. -/
def CTokenPool.getSingleTokenValue (pool : CTokenPool) : BigInt :=
  if pool.mDimensionDepth = 0 ∨ pool.mDimensionsCount = 0 then 0
  else .ofNat 256 (pool.mTotalValue.toNat /
    (pool.mDimensionDepth.toNat * pool.mDimensionsCount.toNat))

def CTokenPool.getTotalValue (pool : CTokenPool) : BigInt := pool.mTotalValue

def CTokenPool.getBankById (pool : CTokenPool) (id : UInt64) : Option CTokenPoolBank :=
  pool.mBanks[id.toNat]?

/-- The ceiling hash of a bank: the hash at its current depth once there is one. -/
def CTokenPoolBank.getFinalHash (bank : CTokenPoolBank) (currentOne : Bool) : Bytes :=
  if currentOne = false ∨ bank.mCurrentFinalHash.length ≠ 32 then bank.mFinalHash
  else bank.mCurrentFinalHash

def CTokenPoolBank.getValueLeft (bank : CTokenPoolBank) (pool : CTokenPool) : BigInt :=
  if bank.mStatus = .depleted then 0
  else if pool.mDimensionDepth = 0 ∨ bank.mCurrentDepth = pool.mDimensionDepth then 0
  else (pool.mDimensionDepth - bank.mCurrentDepth) * pool.getSingleTokenValue

def CTokenPool.getValueLeftInBank (pool : CTokenPool) (bankID : UInt64) : BigInt :=
  match pool.getBankById bankID with
  | some bank => bank.getValueLeft pool
  | none => 0

/-! ### Status changes -/

def CTokenPool.notifyBankStatusChanged (pool : CTokenPool) (status : eTokenPoolBankStatus) :
    CTokenPool :=
  match status with
  | .active => pool
  | .depleted =>
      if pool.mBanks.all (fun bank => bank.mStatus = .depleted) then
        { pool with mStatus := .depleted }
      else pool

/-- An update of one bank, reached through its shared pointer. -/
def CTokenPool.modifyBank (pool : CTokenPool) (id : ℕ) (f : CTokenPoolBank → CTokenPoolBank) :
    CTokenPool :=
  { pool with mBanks := pool.mBanks.modify id f }

/-- `CTokenPoolBank::setStatus` on the bank at an index: the pool is told about it. -/
def CTokenPool.setBankStatus (pool : CTokenPool) (id : ℕ) (status : eTokenPoolBankStatus) :
    CTokenPool :=
  (pool.modifyBank id fun bank => { bank with mStatus := status }).notifyBankStatusChanged status

/-! ### Generation -/

/-- The dimension switch: the secret of the next dimension and the seed of its bank. -/
def CCryptoFactory.dimensionSwitch (cf : CCryptoFactory) (masterNr : Bytes) : Bytes × Bytes :=
  let masterNr := cf.getSHA2_256Vec (masterNr ++ masterNr)
  (masterNr, cf.getSHA2_256Vec masterNr)

/-- A bank as `generateDimensions` constructs it: nothing of its chain is revealed yet. -/
def CTokenPool.freshBank (pool : CTokenPool) (cf : CCryptoFactory) (a : ℕ) (bankSeed : Bytes) :
    CTokenPoolBank :=
  { mID := .ofNat a
    mFinalHash := cf.getSHA2_256Vec^[pool.mDimensionDepth.toNat] bankSeed
    mSeedHash := bankSeed }

/-- The loop of `generateDimensions` from dimension `a` on, for the `count` dimensions left. With
`verify` every chain is walked a second time. -/
def CTokenPool.generateBanks (pool : CTokenPool) (cf : CCryptoFactory) (verify : Bool) :
    (count a : ℕ) → (masterNr : Bytes) → Option (List CTokenPoolBank)
  | 0, _, _ => some []
  | count + 1, a, masterNr =>
      let switched := cf.dimensionSwitch masterNr
      let bank := pool.freshBank cf a switched.2
      if verify ∧ cf.getSHA2_256Vec^[pool.mDimensionDepth.toNat] switched.2 ≠ bank.mFinalHash then
        none
      else (pool.generateBanks cf verify count (a + 1) switched.1).map (bank :: ·)

/-- `generateDimensions` with the 32 random bytes it draws; `none` where it returns false. -/
def CTokenPool.generateDimensions (pool : CTokenPool) (cf : CCryptoFactory) (verify : Bool)
    (random : Bytes32) : Option CTokenPool :=
  if pool.mMasterSeedHash.length ≠ 0 ∨ pool.mBanks.length ≠ 0 then none
  else (pool.generateBanks cf verify pool.mDimensionsCount.toNat 0 random.val).map fun banks =>
    { pool with mMasterSeedHash := random.val, mBanks := banks }

/-- The loop of `getSeedingHashForDimension` from dimension `a` on. -/
def CCryptoFactory.seedingLoop (cf : CCryptoFactory) (dimensionID : ℕ) :
    (count a : ℕ) → (masterNr : Bytes) → Bytes
  | 0, _, _ => []
  | count + 1, a, masterNr =>
      let switched := cf.dimensionSwitch masterNr
      if a = dimensionID then switched.2
      else cf.seedingLoop dimensionID count (a + 1) switched.1

def CTokenPool.getSeedingHashForDimension (pool : CTokenPool) (cf : CCryptoFactory)
    (dimensionID : ℕ) : Bytes :=
  if pool.mMasterSeedHash.length ≠ 32 then []
  else cf.seedingLoop dimensionID pool.mDimensionsCount.toNat 0 pool.mMasterSeedHash

/-! ### Verification -/

/-- What a call of `validateTT` hands back: the value, and the flag it raises for its caller. -/
structure TTAnswer where
  worthValue : BigInt
  isValid : Bool
  deriving DecidableEq, Repr

/-- The state update of `validateTT`: the revealed hash is the new ceiling of the bank. -/
def CTokenPool.consume (pool : CTokenPool) (token : CTransmissionToken) : CTokenPool :=
  let moved := pool.modifyBank token.mBankIndex.toNat fun bank =>
    { bank with
      mCurrentFinalHash := token.mRevealedHash
      mCurrentDepth := token.mBankUsageDepth }
  if pool.mDimensionDepth ≤ token.mBankUsageDepth then
    moved.setBankStatus token.mBankIndex.toNat .depleted
  else moved

/-- The hash loop counts in a `uint64_t`; its length is taken as it stands. The comparison with the
ceiling is made twice in the source. -/
def CTokenPool.validateTT (pool : CTokenPool) (cf : CCryptoFactory) (token : CTransmissionToken)
    (updateState : Bool) : TTAnswer × CTokenPool :=
  let reject : TTAnswer × CTokenPool := (⟨0, false⟩, pool)
  if pool.mStatus ≠ .active then reject
  else if pool.mPubKey.length = 32 ∧ token.mSig.length > 0 ∧
      cf.verifySignature token.mSig (token.getPackedData false) pool.mPubKey = false then reject
  else if token.mRevealedHashesCount = 0 then reject
  else if pool.getTotalValue < token.mValue then reject
  else match pool.getBankById token.mBankIndex with
    | none => reject
    | some bank =>
        if bank.mStatus = .depleted then reject
        else if bank.getValueLeft pool < token.mValue then reject
        else if token.mBankUsageDepth < bank.mCurrentDepth then reject
        else if token.mBankUsageDepth = bank.mCurrentDepth ∧
            token.mRevealedHash = bank.mCurrentFinalHash then (⟨0, true⟩, pool)
        else
          let startPoint := token.mRevealedHash
          let checkPoint := bank.getFinalHash true
          if startPoint.length ≠ 32 ∨ checkPoint.length ≠ 32 then reject
          else
            let effectiveIterations := token.mBankUsageDepth - bank.mCurrentDepth
            let currentHash := cf.getSHA2_256Vec^[effectiveIterations.toNat] startPoint
            if currentHash ≠ checkPoint then reject
            else
              let worthValue := pool.getSingleTokenValue * effectiveIterations
              (⟨worthValue, true⟩, if updateState then pool.consume token else pool)

/-! ### Issuing -/

/-- Where the walk down to a depth starts, and at which depth: the current hash if the depth is
revealed already, else the pre-cached seed hash, else the seed. -/
def CTokenPoolBank.walkStart (bank : CTokenPoolBank) (pool : CTokenPool) (depth : BigInt) :
    Option (Bytes × BigInt) :=
  if depth ≤ bank.mCurrentDepth ∧ bank.mCurrentFinalHash.length = 32 then
    some (bank.mCurrentFinalHash, bank.mCurrentDepth)
  else if depth ≤ bank.mPreCachedSeedHashDepth ∧ bank.mPreCachedSeedHash.length = 32 then
    some (bank.mPreCachedSeedHash, bank.mPreCachedSeedHashDepth)
  else if bank.mSeedHash.length = 32 then some (bank.mSeedHash, pool.mDimensionDepth)
  else none

/-- The tokens of the bank `id` up to a depth are taken as used up. -/
def CTokenPool.markUsed (pool : CTokenPool) (id : ℕ) (bank : CTokenPoolBank) (depth : BigInt)
    (currentHash : Bytes) : CTokenPool :=
  let used := { bank with mCurrentDepth := depth, mCurrentFinalHash := currentHash }
  let moved := pool.modifyBank id fun _ => used
  if used.getValueLeft moved = 0 then moved.setBankStatus id .depleted else moved

/-- The hash of the bank `id` at a depth; the empty vector where it cannot be delivered. -/
def CTokenPool.getHashAtDepth (pool : CTokenPool) (cf : CCryptoFactory) (id : ℕ)
    (bank : CTokenPoolBank) (depth : BigInt) (updateState : Bool) : Bytes × CTokenPool :=
  if depth = 0 then (bank.mFinalHash, pool)
  else if pool.mDimensionDepth < depth then ([], pool)
  else match bank.walkStart pool depth with
    | none => ([], pool)
    | some (startHash, currentDepth) =>
        let currentHash := cf.getSHA2_256Vec^[currentDepth.toNat - depth.toNat] startHash
        (currentHash, if updateState ∧ bank.mCurrentDepth < depth then
          pool.markUsed id bank depth currentHash else pool)

/-- The hashes that make up a value, rounded up. -/
def hashesToBeConsumed (value tokenValue : BigInt) : BigInt :=
  .ofNat 256 (1 + (value.toNat - 1) / tokenValue.toNat)

/-- The last hash of a token worth a value and the number of hashes it uses up. -/
def CTokenPool.genTokenWorthValue (pool : CTokenPool) (cf : CCryptoFactory) (id : ℕ)
    (bank : CTokenPoolBank) (value : BigInt) (markUsed : Bool) : (Bytes × BigInt) × CTokenPool :=
  if value = 0 ∨ bank.getValueLeft pool < value then (([], 0), pool)
  else if pool.getSingleTokenValue = 0 then (([], 0), pool)
  else
    let count := hashesToBeConsumed value pool.getSingleTokenValue
    let (hash, pool) := pool.getHashAtDepth cf id bank (bank.mCurrentDepth + count) markUsed
    ((hash, count), pool)

/-- The bank is read again after the hash was taken: with `markUsed` its depth has moved on. -/
def CTokenPool.genTTWorthValue (pool : CTokenPool) (cf : CCryptoFactory) (id : ℕ)
    (bank : CTokenPoolBank) (value : BigInt) (markUsed : Bool) :
    Option CTransmissionToken × CTokenPool :=
  let ((hash, count), pool) := pool.genTokenWorthValue cf id bank value markUsed
  let mCurrentDepth := (pool.mBanks[id]?.getD bank).mCurrentDepth
  let expectedDepth := if markUsed then mCurrentDepth else mCurrentDepth + count
  if hash.length ≠ 32 then (none, pool)
  else
    (some { mBankIndex := bank.mID, mValue := value, mRevealedHash := hash,
            mRevealedHashesCount := count, mBankUsageDepth := expectedDepth,
            mTokenPoolID := pool.mTokenPoolID }, pool)

def CTokenPool.getTTWorthValue (pool : CTokenPool) (cf : CCryptoFactory) (bankID : UInt64)
    (value : BigInt) (markUsed : Bool) : Option CTransmissionToken × CTokenPool :=
  match pool.mBanks[bankID.toNat]? with
  | none => (none, pool)
  | some bank => pool.genTTWorthValue cf bankID.toNat bank value markUsed

end Gridnet
