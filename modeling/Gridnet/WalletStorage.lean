import Gridnet.PoolCodec
import Gridnet.PoolPricing
import Gridnet.WalletChain

/-! Stored token pools of the web wallet: `generateDimensions`, `getPackedData` and `instantiate` of the
class `CTokenPool` in `StateLessChannels.js`, and the functions that derive the seeds of the banks again. -/

namespace Gridnet.Wallet

/-- A pool with all that is stored of it. -/
structure StoredPool extends CTokenPool where
  mVersion : ℕ := 2
  mOwnerID : Bytes := []
  mReceiptID : Bytes := []
  mFriendlyID : Bytes := []
  mMasterSeedHash : Bytes := []
  mSlot : Option ℕ := none

namespace StoredPool

variable (cf : CCryptoFactory) (pool : StoredPool)

/-! ### Generation -/

/-- The seeds of the banks, one dimension switch after the other. -/
def bankSeeds : (count : ℕ) → (masterNr : Bytes) → List Bytes
  | 0, _ => []
  | count + 1, masterNr =>
      let switched := cf.dimensionSwitch masterNr
      switched.2 :: bankSeeds count switched.1

/-- A bank as `generateDimensions` constructs it. -/
def freshBank (mDimensionDepth a : ℕ) (bankSeed : Bytes) : CTokenPoolBank :=
  { mID := a
    mFinalHash := cf.getSHA2_256Vec^[mDimensionDepth] bankSeed
    mSeedHash := bankSeed }

/-- The loop of `generateDimensions` from dimension `a` on; with `verify` every chain is walked twice. -/
def generateBanks (verify : Bool) (mDimensionDepth : ℕ) :
    (count a : ℕ) → (masterNr : Bytes) → Option (List CTokenPoolBank)
  | 0, _, _ => some []
  | count + 1, a, masterNr =>
      let switched := cf.dimensionSwitch masterNr
      let bank := freshBank cf mDimensionDepth a switched.2
      if verify ∧ cf.getSHA2_256Vec^[mDimensionDepth] switched.2 ≠ bank.mFinalHash then none
      else (generateBanks verify mDimensionDepth count (a + 1) switched.1).map (bank :: ·)

/-- The constructor, with the 32 bytes drawn for the ID; `none` for its `RangeError`. -/
def construct (random : Bytes32) (dimensionsCount : ℕ) (ownerID receiptID : Bytes)
    (valuePerToken totalValue : ℕ) (friendlyID : Bytes) : Option StoredPool :=
  (CTokenPool.construct random dimensionsCount valuePerToken totalValue).map fun pool =>
    { toCTokenPool := pool, mOwnerID := ownerID, mReceiptID := receiptID, mFriendlyID := friendlyID }

/-- `generateDimensions`, over the seed it is given or the 32 bytes it draws; `none` where it returns
false. -/
def generateDimensions (verify : Bool) (externalSeed : Option Bytes32) (random : Bytes32) :
    Option StoredPool :=
  if pool.mMasterSeedHash.length ≠ 0 ∨ pool.mBanks.length ≠ 0 then none
  else
    let seed := (externalSeed.getD random).val
    (generateBanks cf verify pool.mDimensionDepth pool.mDimensionsCount 0 seed).map fun banks =>
      { pool with mMasterSeedHash := seed, mBanks := banks }

/-! ### Serialization -/

def packedBank (bank : CTokenPoolBank) : Asn1 :=
  .sequence [.octets (bank.getFinalHash false), .octets bank.mCurrentFinalHash,
    .octets (BigIntToBytes bank.mCurrentDepth)]

/-- `getPackedData`, which includes the seed unless it is told not to. -/
def getPackedData (includeSeed : Bool) : Asn1 :=
  .sequence [.integer pool.mVersion, .sequence (
    [.octets pool.mOwnerID,
      .octets (if includeSeed then pool.mMasterSeedHash else []),
      .octets (BigIntToBytes pool.mDimensionDepth),
      .integer pool.mDimensionsCount,
      .octets (BigIntToBytes pool.mTotalValue),
      .octets pool.mReceiptID,
      .octets pool.mTokenPoolID,
      .octets pool.mFriendlyID,
      .integer pool.mStatus.packed,
      .sequence (pool.mBanks.map packedBank)] ++
    if pool.mPubKey.length > 0 then [.octets pool.mPubKey] else [])]

/-- `getSeedingHashForDimension`. The first turn of its loop throws: it makes a `Uint8Array` of a `BigInt`,
and calls `set` of an `ArrayBuffer`, which has no such method. -/
def getSeedingHashForDimension (_dimensionID : ℕ) : Except JsError Bytes :=
  if pool.mMasterSeedHash.length ≠ 32 then .ok []
  else if 0 < pool.mDimensionsCount then .error .typeError
  else .ok []

/-- A bank is appended; its status is inferred from its hashes. Its current hash is not kept. -/
def pushBank (bankID : ℕ) (bank : CTokenPoolBank) (currentHash : Bytes) : StoredPool :=
  let pushed := { pool with mBanks := pool.mBanks ++ [bank] }
  if currentHash = bank.mFinalHash then
    { pushed with toCTokenPool := pushed.toCTokenPool.setBankStatus bankID .depleted }
  else pushed

/-- The loop over the packed banks, from the bank `bankID` on; `none` for an exception. -/
def decodeBanks : (pool : StoredPool) → (bankID : ℕ) → List Asn1 → Option StoredPool
  | pool, _, [] => some pool
  | pool, bankID, .sequence (.octets finalHash :: .octets currentHash :: .octets temp :: _) :: rest =>
      match pool.getSeedingHashForDimension bankID with
      | .error _ => none
      | .ok seedHash =>
          let bank : CTokenPoolBank :=
            { mID := bankID
              mFinalHash := finalHash
              mCurrentDepth := BytesToBigInt temp
              numberDepth := false
              mSeedHash := seedHash }
          decodeBanks (pool.pushBank bankID bank currentHash) (bankID + 1) rest
  | _, _, _ :: _ => none

/-- The public key that may follow the banks. -/
def decodePubKey : List Asn1 → Bytes
  | .octets pubKey :: _ => pubKey
  | _ => []

/-- The banks and the public key behind the fields; both may be missing. -/
def decodeDimensions (pool : StoredPool) : List Asn1 → Option StoredPool
  | [] => some pool
  | .sequence banks :: rest =>
      (decodeBanks pool 0 banks).map fun pool => { pool with mPubKey := decodePubKey rest }
  | _ => none

/-- `instantiate`; `none` for null, which it also returns where it catches an exception. -/
def instantiate : (packedData : Asn1) → Option StoredPool
  | .sequence (.integer version :: .sequence objects :: _) =>
      if version ≠ 2 then none
      else match objects with
        | .octets ownerID :: .octets seed :: .octets depth :: .integer count :: .octets total ::
            .octets receiptID :: .octets poolID :: .octets friendlyID :: .integer status :: rest =>
            decodeDimensions
              { mVersion := version
                mOwnerID := ownerID
                mMasterSeedHash := seed
                mDimensionDepth := BytesToBigInt depth
                mDimensionsCount := count
                mTotalValue := BytesToBigInt total
                mReceiptID := receiptID
                mTokenPoolID := poolID
                mFriendlyID := friendlyID
                mStatus := eTokenPoolStatus.unpacked status } rest
        | _ => none
  | _ => none

/-! ### Seeds again -/

/-- The loop that gives every bank its seed. -/
def reseed : (masterNr : Bytes) → List CTokenPoolBank → List CTokenPoolBank
  | _, [] => []
  | masterNr, bank :: rest =>
      let switched := cf.dimensionSwitch masterNr
      { bank with mSeedHash := switched.2 } :: reseed switched.1 rest

/-- `regenerateBankSeeds`. -/
def regenerateBankSeeds : Bool × StoredPool :=
  if pool.mMasterSeedHash.length ≠ 32 then (false, pool)
  else (true, { pool with mBanks := reseed cf pool.mMasterSeedHash pool.mBanks })

/-- The banks whose final hash is the end of the chain over their seed. -/
def validBanks (mDimensionDepth : ℕ) : (masterNr : Bytes) → List CTokenPoolBank → ℕ
  | _, [] => 0
  | masterNr, bank :: rest =>
      let switched := cf.dimensionSwitch masterNr
      let storedFinalHash := bank.getFinalHash false
      (if storedFinalHash.length = 32 ∧
          cf.getSHA2_256Vec^[mDimensionDepth] switched.2 = storedFinalHash then 1 else 0) +
        validBanks mDimensionDepth switched.1 rest

/-- `validateSeedAgainstBanks`, without the texts of its report. -/
def validateSeedAgainstBanks : Bool :=
  pool.mMasterSeedHash.length == 32 && pool.mBanks.length != 0 && decide (0 < pool.mDimensionDepth) &&
    validBanks cf pool.mDimensionDepth pool.mMasterSeedHash pool.mBanks == pool.mBanks.length

/-- What a failed validation leaves: no seed, no slot, and no seed in any bank. -/
def withoutSeeds : StoredPool :=
  { pool with
    mMasterSeedHash := []
    mSlot := none
    mBanks := pool.mBanks.map fun bank => { bank with mSeedHash := [] } }

/-- `regenerateSeedFromKeyChain`; a key chain derives a seed for a slot, or nothing. -/
def regenerateSeedFromKeyChain (deriveTokenPoolSeed : (slot : ℕ) → Option Bytes) (slot : ℕ) :
    Bool × StoredPool :=
  match deriveTokenPoolSeed slot with
  | none => (false, pool)
  | some seedBuffer =>
      if seedBuffer.length ≠ 32 then (false, pool)
      else
        let seeded :=
          { pool with
            mSlot := some slot
            mMasterSeedHash := seedBuffer
            mBanks := reseed cf seedBuffer pool.mBanks }
        if seeded.validateSeedAgainstBanks cf then (true, seeded) else (false, seeded.withoutSeeds)

/-! ### Payments -/

def canSpendTokens : Bool := pool.mMasterSeedHash.length == 32 && decide (0 < pool.mBanks.length)

def getTTWorthValue (bankID value : ℕ) (markUsed : Bool) :
    Except JsError (Option CTransmissionToken) × StoredPool :=
  if !pool.canSpendTokens then (.ok none, pool)
  else match pool.mBanks[bankID]? with
    | none => (.ok none, pool)
    | some bank =>
        let generated := pool.toCTokenPool.genTTWorthValue cf bankID bank value markUsed
        (generated.1, { pool with toCTokenPool := generated.2 })

/-- A token that arrives. -/
def receive (token : CTransmissionToken) (isBankUpdate : Bool) : StoredPool :=
  { pool with toCTokenPool := (pool.toCTokenPool.validateTT cf token true isBankUpdate).2 }

end StoredPool

/-- What happens to a pool: a payment from it, or a token that arrives. -/
inductive PoolUse where
  | pay (bankID value : ℕ) (markUsed : Bool)
  | receive (token : CTransmissionToken) (isBankUpdate : Bool)

namespace StoredPool

def use (cf : CCryptoFactory) (pool : StoredPool) :
    PoolUse → Except JsError (Option CTransmissionToken) × StoredPool
  | .pay bankID value markUsed => pool.getTTWorthValue cf bankID value markUsed
  | .receive token isBankUpdate => (.ok none, pool.receive cf token isBankUpdate)

/-! ### What a stored pool should give back -/

/-- Two pools with the same banks, as far as payments go. -/
structure SameBanks (cf : CCryptoFactory) (pool copy : StoredPool) : Prop where
  seeds : copy.mBanks.map CTokenPoolBank.mSeedHash = pool.mBanks.map CTokenPoolBank.mSeedHash
  finalHashes : copy.mBanks.map CTokenPoolBank.mFinalHash = pool.mBanks.map CTokenPoolBank.mFinalHash
  depths : copy.mBanks.map CTokenPoolBank.mCurrentDepth = pool.mBanks.map CTokenPoolBank.mCurrentDepth
  valuesLeft : copy.mBanks.map (fun bank => bank.getValueLeft copy.toCTokenPool) =
    pool.mBanks.map fun bank => bank.getValueLeft pool.toCTokenPool
  nextToken : ∀ bankID value markUsed,
    (copy.getTTWorthValue cf bankID value markUsed).1 = (pool.getTTWorthValue cf bankID value markUsed).1

/-- What `getPackedData()` packs comes back as a pool, which has the same banks once its seeds are derived
again, whether from its own master seed or from the key chain of that seed; another key chain is refused and
changes nothing. -/
def RespendsStored (cf : CCryptoFactory) (pool : StoredPool) : Prop :=
  ∃ copy, instantiate (pool.getPackedData true) = some copy ∧
    ((copy.regenerateBankSeeds cf).1 = true ∧ SameBanks cf pool (copy.regenerateBankSeeds cf).2) ∧
    ∀ deriveTokenPoolSeed slot,
      if deriveTokenPoolSeed slot = some pool.mMasterSeedHash then
        (copy.regenerateSeedFromKeyChain cf deriveTokenPoolSeed slot).1 = true ∧
          SameBanks cf pool (copy.regenerateSeedFromKeyChain cf deriveTokenPoolSeed slot).2
      else copy.regenerateSeedFromKeyChain cf deriveTokenPoolSeed slot = (false, copy)

variable {cf : CCryptoFactory} {pool : StoredPool}

/-! ### Generated banks -/

/-- Fresh banks over a list of seeds, numbered from `a` on. -/
def freshBanks (cf : CCryptoFactory) (mDimensionDepth : ℕ) : (a : ℕ) → List Bytes → List CTokenPoolBank
  | _, [] => []
  | a, bankSeed :: rest =>
      freshBank cf mDimensionDepth a bankSeed :: freshBanks cf mDimensionDepth (a + 1) rest

theorem bankSeeds_length (count : ℕ) (masterNr : Bytes) : (bankSeeds cf count masterNr).length = count := by
  induction count generalizing masterNr with
  | zero => rfl
  | succ count ih => simp [bankSeeds, ih]

/-- The second walk over a chain ends where the first did. -/
theorem generateBanks_eq (verify : Bool) (depth count a : ℕ) (masterNr : Bytes) :
    generateBanks cf verify depth count a masterNr =
      some (freshBanks cf depth a (bankSeeds cf count masterNr)) := by
  induction count generalizing a masterNr with
  | zero => rfl
  | succ count ih => simp [generateBanks, bankSeeds, freshBanks, freshBank, ih]

/-- What is generated: fresh banks over the seeds that the master seed leads to. -/
theorem generateDimensions_some {generated : StoredPool} {verify : Bool} {externalSeed : Option Bytes32}
    {random : Bytes32} (hgenerate : pool.generateDimensions cf verify externalSeed random = some generated) :
    generated =
      { pool with
        mMasterSeedHash := (externalSeed.getD random).val
        mBanks := freshBanks cf pool.mDimensionDepth 0
          (bankSeeds cf pool.mDimensionsCount (externalSeed.getD random).val) } := by
  unfold generateDimensions at hgenerate
  split_ifs at hgenerate
  simp only [generateBanks_eq, Option.map_some, Option.some.injEq] at hgenerate
  exact hgenerate.symm

/-! ### What no use of a pool changes -/

/-- The seed of a bank and the end of the chain over it. -/
def root (bank : CTokenPoolBank) : Bytes × Bytes := (bank.mSeedHash, bank.mFinalHash)

/-- Two pools of the same dimensions, over the same chains. -/
structure SameRoots (pool next : CTokenPool) : Prop where
  count_eq : next.mDimensionsCount = pool.mDimensionsCount
  depth_eq : next.mDimensionDepth = pool.mDimensionDepth
  roots_eq : next.mBanks.map root = pool.mBanks.map root

theorem SameRoots.refl (pool : CTokenPool) : SameRoots pool pool := ⟨rfl, rfl, rfl⟩

theorem SameRoots.trans {a b c : CTokenPool} (hab : SameRoots a b) (hbc : SameRoots b c) : SameRoots a c where
  count_eq := hbc.count_eq.trans hab.count_eq
  depth_eq := hbc.depth_eq.trans hab.depth_eq
  roots_eq := hbc.roots_eq.trans hab.roots_eq

/-- A bank that is rewritten over its root. -/
theorem sameRoots_modifyBank {pool : CTokenPool} {id : ℕ} {f : CTokenPoolBank → CTokenPoolBank}
    (hroot : ∀ bank, pool.mBanks[id]? = some bank → root (f bank) = root bank) :
    SameRoots pool (pool.modifyBank id f) where
  count_eq := rfl
  depth_eq := rfl
  roots_eq := by
    cases hentry : pool.mBanks[id]? with
    | none => rw [CTokenPool.modifyBank, List.modify_eq_self (List.getElem?_eq_none_iff.mp hentry)]
    | some bank => exact ListUpdate.map_modify_of_eq hentry (hroot bank hentry)

theorem sameRoots_setBankStatus (pool : CTokenPool) (id : ℕ) (status : eTokenPoolBankStatus) :
    SameRoots pool (pool.setBankStatus id status) := by
  have hmoved : SameRoots pool (pool.modifyBank id fun bank => { bank with mStatus := status }) := by
    apply sameRoots_modifyBank
    intro bank _
    rfl
  refine hmoved.trans ?_
  cases status with
  | active => exact SameRoots.refl _
  | depleted =>
      rw [CTokenPool.setBankStatus, CTokenPool.notifyBankStatusChanged_depleted]
      exact ⟨rfl, rfl, rfl⟩

/-- A token that is recorded rewrites the current hash and depth, or what is known in advance, of one bank. -/
theorem sameRoots_record {pool : CTokenPool} {token : CTransmissionToken} {bank : CTokenPoolBank}
    (hbank : pool.mBanks[token.mBankIndex]? = some bank) (isBankUpdate : Bool) :
    SameRoots pool (pool.record token bank isBankUpdate) := by
  have htake : root (bank.take token isBankUpdate) = root bank := by
    unfold CTokenPoolBank.take CTokenPoolBank.setPreCachedSeedHash
    split_ifs <;> rfl
  have hmoved : SameRoots pool (pool.modifyBank token.mBankIndex fun _ => bank.take token isBankUpdate) := by
    apply sameRoots_modifyBank
    intro other hother
    rw [Option.some.inj (hother.symm.trans hbank)]
    exact htake
  unfold CTokenPool.record
  dsimp only
  split_ifs
  · exact hmoved.trans (sameRoots_setBankStatus _ _ _)
  · exact hmoved

theorem sameRoots_validateTT (pool : CTokenPool) (token : CTransmissionToken) (updateState isBankUpdate : Bool) :
    SameRoots pool (pool.validateTT cf token updateState isBankUpdate).2 := by
  rcases CTokenPool.validateTT_cases cf pool token updateState isBankUpdate with
    ⟨bank, haccepts, heq⟩ | ⟨-, value, -, heq⟩
  · rw [heq]
    dsimp only
    split_ifs
    · exact sameRoots_record haccepts.bank_eq isBankUpdate
    · exact SameRoots.refl pool
  · rw [heq]
    exact SameRoots.refl pool

theorem sameRoots_markUsed {pool : CTokenPool} {id : ℕ} {bank : CTokenPoolBank}
    (hbank : pool.mBanks[id]? = some bank) (depth : ℕ) (currentHash : Bytes) :
    SameRoots pool (pool.markUsed id bank depth currentHash) := by
  have hmoved : SameRoots pool (pool.modifyBank id fun _ =>
      { bank with
        mCurrentDepth := depth, numberDepth := false, mCurrentFinalHash := currentHash }) := by
    apply sameRoots_modifyBank
    intro other hother
    rw [Option.some.inj (hother.symm.trans hbank)]
    rfl
  unfold CTokenPool.markUsed
  dsimp only
  split_ifs
  · exact hmoved.trans (sameRoots_setBankStatus _ _ _)
  · exact hmoved

theorem sameRoots_getHashAtDepth {pool : CTokenPool} {id : ℕ} {bank : CTokenPoolBank}
    (hbank : pool.mBanks[id]? = some bank) (depth : ℕ) (updateState : Bool) :
    SameRoots pool (pool.getHashAtDepth cf id bank depth updateState).2 := by
  unfold CTokenPool.getHashAtDepth
  by_cases hzero : depth = 0
  · rw [if_pos hzero]
    exact SameRoots.refl pool
  rw [if_neg hzero]
  by_cases hscope : pool.mDimensionDepth < depth
  · rw [if_pos hscope]
    exact SameRoots.refl pool
  rw [if_neg hscope]
  cases bank.walkStart pool depth with
  | none => exact SameRoots.refl pool
  | some start =>
      dsimp only
      split_ifs
      · exact sameRoots_markUsed hbank _ _
      · exact SameRoots.refl pool

theorem sameRoots_genTTWorthValue {pool : CTokenPool} {id : ℕ} {bank : CTokenPoolBank}
    (hbank : pool.mBanks[id]? = some bank) (value : ℕ) (markUsed : Bool) :
    SameRoots pool (pool.genTTWorthValue cf id bank value markUsed).2 := by
  have hraw : SameRoots pool (pool.genTokenWorthValue cf id bank value markUsed).2 := by
    unfold CTokenPool.genTokenWorthValue
    split_ifs
    · exact SameRoots.refl pool
    · exact SameRoots.refl pool
    · exact SameRoots.refl pool
    · exact sameRoots_getHashAtDepth hbank _ _
  unfold CTokenPool.genTTWorthValue
  dsimp only
  cases (pool.genTokenWorthValue cf id bank value markUsed).1 with
  | error error => exact hraw
  | ok raw =>
      cases raw with
      | none => exact hraw
      | some rawToken =>
          dsimp only
          split_ifs <;> exact hraw

/-- A generated pool: of version 2, over a seed of 32 bytes, with a bank over each of the seeds that it leads
to. -/
structure Rooted (cf : CCryptoFactory) (pool : StoredPool) : Prop where
  version_eq : pool.mVersion = 2
  seed_length : pool.mMasterSeedHash.length = 32
  count_pos : 0 < pool.mDimensionsCount
  roots_eq : pool.mBanks.map root = (bankSeeds cf pool.mDimensionsCount pool.mMasterSeedHash).map fun bankSeed =>
    (bankSeed, cf.getSHA2_256Vec^[pool.mDimensionDepth] bankSeed)

theorem Rooted.of_sameRoots (hrooted : pool.Rooted cf) {next : CTokenPool}
    (hsame : SameRoots pool.toCTokenPool next) : Rooted cf { pool with toCTokenPool := next } where
  version_eq := hrooted.version_eq
  seed_length := hrooted.seed_length
  count_pos := hrooted.count_pos.trans_eq hsame.count_eq.symm
  roots_eq := by
    dsimp only
    rw [hsame.roots_eq, hrooted.roots_eq, hsame.count_eq, hsame.depth_eq]

/-- Neither a payment nor a token that arrives changes the chains of a pool. -/
theorem Rooted.use (hrooted : pool.Rooted cf) (event : PoolUse) : (pool.use cf event).2.Rooted cf := by
  cases event with
  | receive token isBankUpdate =>
      exact hrooted.of_sameRoots (sameRoots_validateTT _ token true isBankUpdate)
  | pay bankID value markUsed =>
      show (pool.getTTWorthValue cf bankID value markUsed).2.Rooted cf
      unfold getTTWorthValue
      split
      · exact hrooted
      · cases hbank : pool.mBanks[bankID]? with
        | none => exact hrooted
        | some bank => exact hrooted.of_sameRoots (sameRoots_genTTWorthValue hbank value markUsed)

theorem map_root_freshBanks (depth a : ℕ) (seeds : List Bytes) :
    (freshBanks cf depth a seeds).map root =
      seeds.map fun bankSeed => (bankSeed, cf.getSHA2_256Vec^[depth] bankSeed) := by
  induction seeds generalizing a with
  | nil => rfl
  | cons bankSeed rest ih => simp [freshBanks, freshBank, root, ih]

theorem construct_some {random : Bytes32} {dimensionsCount valuePerToken totalValue : ℕ}
    {ownerID receiptID friendlyID : Bytes}
    (hconstruct : construct random dimensionsCount ownerID receiptID valuePerToken totalValue friendlyID =
      some pool) : pool.mVersion = 2 ∧ 0 < pool.mDimensionsCount := by
  obtain ⟨constructed, hpool, rfl⟩ := Option.map_eq_some_iff.mp hconstruct
  unfold CTokenPool.construct at hpool
  split_ifs at hpool with hzero
  obtain rfl := Option.some.inj hpool
  rw [not_or] at hzero
  exact ⟨rfl, Nat.pos_of_ne_zero hzero.2⟩

/-- What is constructed and generated is a generated pool. -/
theorem Rooted.of_generated {random : Bytes32} {dimensionsCount valuePerToken totalValue : ℕ}
    {ownerID receiptID friendlyID : Bytes}
    (hconstruct : construct random dimensionsCount ownerID receiptID valuePerToken totalValue friendlyID =
      some pool)
    {generated : StoredPool} {verify : Bool} {externalSeed : Option Bytes32} {drawn : Bytes32}
    (hgenerate : pool.generateDimensions cf verify externalSeed drawn = some generated) :
    generated.Rooted cf := by
  obtain ⟨hversion, hcount⟩ := construct_some hconstruct
  rw [generateDimensions_some hgenerate]
  exact ⟨hversion, (externalSeed.getD drawn).property, hcount, map_root_freshBanks _ _ _⟩

theorem Rooted.mBanks_length (hrooted : pool.Rooted cf) : pool.mBanks.length = pool.mDimensionsCount := by
  have hlength := congrArg List.length hrooted.roots_eq
  simpa [bankSeeds_length] using hlength

/-- A generated pool stays one through its history. -/
theorem rooted_final {random : Bytes32} {dimensionsCount valuePerToken totalValue : ℕ}
    {ownerID receiptID friendlyID : Bytes}
    (hconstruct : construct random dimensionsCount ownerID receiptID valuePerToken totalValue friendlyID =
      some pool)
    {generated : StoredPool} {verify : Bool} {externalSeed : Option Bytes32} {drawn : Bytes32}
    (hgenerate : pool.generateDimensions cf verify externalSeed drawn = some generated) (uses : List PoolUse) :
    (Machine.final (StoredPool.use cf) generated uses).Rooted cf :=
  Machine.invariant_final (fun _ event hrooted => hrooted.use event)
    (Rooted.of_generated hconstruct hgenerate) uses

/-! ### The seed is stored with the pool -/

/-- A pool that holds its seed does not come back: the seed of its first bank throws. -/
theorem instantiate_withSeed (hrooted : pool.Rooted cf) : instantiate (pool.getPackedData true) = none := by
  have hbanks : pool.mBanks.length ≠ 0 := hrooted.mBanks_length ▸ hrooted.count_pos.ne'
  cases hlist : pool.mBanks with
  | nil => rw [hlist] at hbanks; exact absurd rfl hbanks
  | cons bank rest =>
      simp [getPackedData, instantiate, hrooted.version_eq, hlist, decodeDimensions, packedBank, decodeBanks,
        getSeedingHashForDimension, hrooted.seed_length, hrooted.count_pos]

/-- **No generated pool comes back to be spent again, whatever happened to it.** -/
theorem not_respendsStored {random : Bytes32} {dimensionsCount valuePerToken totalValue : ℕ}
    {ownerID receiptID friendlyID : Bytes}
    (hconstruct : construct random dimensionsCount ownerID receiptID valuePerToken totalValue friendlyID =
      some pool)
    {generated : StoredPool} {verify : Bool} {externalSeed : Option Bytes32} {drawn : Bytes32}
    (hgenerate : pool.generateDimensions cf verify externalSeed drawn = some generated) (uses : List PoolUse) :
    ¬RespendsStored cf (Machine.final (StoredPool.use cf) generated uses) := by
  rintro ⟨copy, hcopy, -⟩
  rw [instantiate_withSeed (rooted_final hconstruct hgenerate uses)] at hcopy
  cases hcopy

/-- A pool of one bank with one token, before and after its bank is generated. -/
def oneBankPool : StoredPool :=
  { mTokenPoolID := (countingBytes 0).val, mTotalValue := 1, mDimensionsCount := 1, mDimensionDepth := 1 }

def oneBankGenerated : StoredPool :=
  { oneBankPool with
    mMasterSeedHash := (countingBytes 0).val
    mBanks := [freshBank countingHash 1 0 (countingBytes 2).val] }

theorem not_respendsStored_oneBank :
    ¬RespendsStored countingHash (Machine.final (StoredPool.use countingHash) oneBankGenerated [.pay 0 1 true]) := by
  have hconstruct : construct (countingBytes 0) 1 [] [] 1 1 [] = some oneBankPool := rfl
  have hgenerate : oneBankPool.generateDimensions countingHash true none (countingBytes 0) =
      some oneBankGenerated := rfl
  exact not_respendsStored hconstruct hgenerate [.pay 0 1 true]

/-- The pool of one bank is packed and read as null. -/
theorem respendsStored_fails :
    construct (countingBytes 0) 1 [] [] 1 1 [] = some oneBankPool ∧
    oneBankPool.generateDimensions countingHash true none (countingBytes 0) = some oneBankGenerated ∧
    (instantiate (oneBankGenerated.getPackedData true)).isNone = true ∧
    ¬RespendsStored countingHash oneBankGenerated := by
  have hnull : (instantiate (oneBankGenerated.getPackedData true)).isNone = true := rfl
  refine ⟨rfl, rfl, hnull, ?_⟩
  rintro ⟨copy, hcopy, -⟩
  rw [hcopy] at hnull
  cases hnull

end StoredPool

end Gridnet.Wallet
