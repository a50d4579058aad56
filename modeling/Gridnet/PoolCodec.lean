import Gridnet.PoolSpending

/-! Serialization of token pools. The status of a bank is not packed: `instantiate` marks a bank as
depleted if its current hash is its final hash. A pool comes back as it was exactly if that is how
the status of each of its banks stands to its hashes. -/

namespace Gridnet

/-! ### Packing -/

def CTokenPoolBank.packed (bank : CTokenPoolBank) : Asn1 :=
  .sequence [.octets (bank.getFinalHash false), .octets bank.mCurrentFinalHash,
    .octets (BigIntToBytes bank.mCurrentDepth.toNat)]

def eTokenPoolStatus.packed : eTokenPoolStatus → ℕ
  | .active => 0
  | .depleted => 1
  | .banned => 2

/-- The cast of a decoded number; the numbers without a name are read as `banned`. -/
def eTokenPoolStatus.unpacked : ℕ → eTokenPoolStatus
  | 0 => .active
  | 1 => .depleted
  | _ => .banned

@[simp] theorem eTokenPoolStatus.unpacked_packed (status : eTokenPoolStatus) :
    eTokenPoolStatus.unpacked status.packed = status := by
  cases status <;> rfl

theorem eTokenPoolStatus.packed_lt (status : eTokenPoolStatus) : status.packed < 2 ^ 32 := by
  cases status <;> decide

def CTokenPool.getPackedData (pool : CTokenPool) (includeSeed : Bool) : Asn1 :=
  .sequence [.integer pool.mVersion.toNat, .sequence (
    [.octets pool.mOwnerID,
      .octets (if includeSeed ∧ pool.mMasterSeedHash.length = 32 then pool.mMasterSeedHash else []),
      .octets (BigIntToBytes pool.mDimensionDepth.toNat),
      .integer pool.mDimensionsCount.toNat,
      .octets (BigIntToBytes pool.mTotalValue.toNat),
      .octets pool.mReceiptID,
      .octets pool.mTokenPoolID,
      .octets pool.mFriendlyID,
      .integer pool.mStatus.packed,
      .sequence (pool.mBanks.map CTokenPoolBank.packed)] ++
    if pool.mPubKey.length = 32 then [.octets pool.mPubKey] else [])]

/-! ### Unpacking -/

/-- A bank as it is constructed from its packed hashes and depth. -/
def CTokenPool.readBank (pool : CTokenPool) (cf : CCryptoFactory) (bankID : ℕ)
    (finalHash currentHash temp : Bytes) : CTokenPoolBank :=
  { mID := .ofNat bankID
    mFinalHash := finalHash
    mCurrentDepth := .ofNat 256 (BytesToBigInt temp)
    mSeedHash := pool.getSeedingHashForDimension cf bankID
    mCurrentFinalHash := currentHash }

/-- A bank appended to the pool; its status is inferred from its hashes. -/
def CTokenPool.pushBank (pool : CTokenPool) (bankID : ℕ) (bank : CTokenPoolBank) : CTokenPool :=
  let pushed := { pool with mBanks := pool.mBanks ++ [bank] }
  if bank.mCurrentFinalHash = bank.mFinalHash then pushed.setBankStatus bankID .depleted else pushed

/-- The loop over the packed banks, from the bank `bankID` on. -/
def CTokenPool.decodeBanks (cf : CCryptoFactory) :
    (pool : CTokenPool) → (bankID : ℕ) → List Asn1 → Option CTokenPool
  | pool, _, [] => some pool
  | pool, bankID, .sequence (.octets finalHash :: .octets currentHash :: .octets temp :: _) :: rest =>
      decodeBanks cf
        (pool.pushBank bankID (pool.readBank cf bankID finalHash currentHash temp)) (bankID + 1) rest
  | _, _, _ :: _ => none

/-- The public key that may follow the banks; nothing else may. -/
def decodePubKey : List Asn1 → Option Bytes
  | [] => some []
  | [.octets pubKey] => some pubKey
  | _ => none

/-- `instantiate` over the random pool ID the new pool starts with; `none` for `nullptr`. A pool of
another version than 2 is left as it was constructed. `decode(size_t &)` throws on numbers over 32 bits. -/
def CTokenPool.instantiate (cf : CCryptoFactory) (random : Bytes32) (packedData : Asn1)
    (masterSeed : Bytes) : Option CTokenPool :=
  match packedData with
  | .sequence [.integer version, .sequence objects] =>
      if version ≥ 2 ^ 32 then none
      else if version ≠ 2 then some { mTokenPoolID := random.val, mVersion := .ofNat version }
      else match objects with
        | .octets ownerID :: .octets seed :: .octets depth :: .integer count :: .octets total ::
            .octets receiptID :: .octets poolID :: .octets friendlyID :: .integer status ::
            .sequence banks :: rest =>
            if count ≥ 2 ^ 32 ∨ status ≥ 2 ^ 32 then none
            else
              let pool : CTokenPool :=
                { mOwnerID := ownerID
                  mMasterSeedHash := if masterSeed.length = 32 then masterSeed else seed
                  mDimensionDepth := .ofNat 256 (BytesToBigInt depth)
                  mDimensionsCount := .ofNat count
                  mTotalValue := .ofNat 256 (BytesToBigInt total)
                  mReceiptID := receiptID
                  mTokenPoolID := poolID }
              (decodeBanks cf pool 0 banks).bind fun pool =>
                (decodePubKey rest).map fun pubKey =>
                  { pool with
                    mPubKey := pubKey
                    mFriendlyID := friendlyID
                    mStatus := .unpacked status }
        | _ => none
  | _ => none

/-! ### Comparison -/

/-- `operator==` of banks, which compares the pre-cached seed hash of the second with itself. -/
def CTokenPoolBank.equals (c1 c2 : CTokenPoolBank) : Bool :=
  c1.mCurrentDepth = c2.mCurrentDepth ∧ c1.mCurrentFinalHash = c2.mCurrentFinalHash ∧
  c1.mCurrentIndex = c2.mCurrentIndex ∧ c1.mFinalHash = c2.mFinalHash ∧
  c2.mPreCachedSeedHash = c2.mPreCachedSeedHash ∧
  c1.mPreCachedSeedHashDepth = c2.mPreCachedSeedHashDepth ∧ c1.mSeedHash = c2.mSeedHash ∧
  c1.mStatus = c2.mStatus

/-- `operator==` of pools. It indexes the banks of the second pool by those of the first; a bank the
second does not have counts as different. -/
def CTokenPool.equals (c1 c2 : CTokenPool) : Bool :=
  (c1.mDimensionDepth = c2.mDimensionDepth ∧ c1.mDimensionsCount = c2.mDimensionsCount ∧
    c1.mFriendlyID = c2.mFriendlyID ∧ c1.mMasterSeedHash = c2.mMasterSeedHash ∧
    c1.mOwnerID = c2.mOwnerID ∧ c1.mReceiptID = c2.mReceiptID ∧ c1.mStatus = c2.mStatus ∧
    c1.mTokenPoolID = c2.mTokenPoolID ∧ c1.mTotalValue = c2.mTotalValue ∧
    c1.mVersion = c2.mVersion ∧ c1.mPubKey = c2.mPubKey) &&
  c1.mBanks.zipIdx.all fun (bank, i) => (c2.mBanks[i]?).any fun other => bank.equals other

theorem CTokenPool.equals_self (pool : CTokenPool) : pool.equals pool = true := by
  have hbanks : pool.mBanks.zipIdx.all
      (fun (bank, i) => (pool.mBanks[i]?).any fun other => bank.equals other) = true := by
    rw [List.all_eq_true]
    rintro ⟨bank, i⟩ hmem
    have hentry : pool.mBanks[i]? = some bank := List.mem_zipIdx_iff_getElem?.mp hmem
    simp [hentry, CTokenPoolBank.equals]
  simp [equals, hbanks]

/-! ### What a pool that was generated keeps -/

/-- A bank as the constructor and `validateTT` leave it: at its index, over its seed, with nothing
pre-cached. -/
structure CTokenPoolBank.Plain (cf : CCryptoFactory) (pool : CTokenPool) (id : ℕ)
    (bank : CTokenPoolBank) : Prop where
  id_eq : bank.mID = .ofNat id
  seed_eq : bank.mSeedHash = pool.getSeedingHashForDimension cf id
  index_eq : bank.mCurrentIndex = 0
  preCached_eq : bank.mPreCachedSeedHash = []
  preCachedDepth_eq : bank.mPreCachedSeedHashDepth = 0

/-- The bank `instantiate` makes of a packed bank that was plain. -/
def CTokenPoolBank.inferred (bank : CTokenPoolBank) : CTokenPoolBank :=
  { bank with mStatus := if bank.mCurrentFinalHash = bank.mFinalHash then .depleted else .active }

namespace CTokenPool

variable {cf : CCryptoFactory}

theorem getSeedingHashForDimension_congr {a b : CTokenPool} (cf : CCryptoFactory) (id : ℕ)
    (hseed : a.mMasterSeedHash = b.mMasterSeedHash)
    (hcount : a.mDimensionsCount = b.mDimensionsCount) :
    a.getSeedingHashForDimension cf id = b.getSeedingHashForDimension cf id := by
  rw [getSeedingHashForDimension, getSeedingHashForDimension, hseed, hcount]

/-- A bank appended by the loop, with the status inferred for it. -/
theorem pushBank_eq (pool : CTokenPool) {bank : CTokenPoolBank} (hactive : bank.mStatus = .active) :
    ∃ status, pool.pushBank pool.mBanks.length bank =
      { pool with mBanks := pool.mBanks ++ [bank.inferred], mStatus := status } := by
  unfold pushBank
  by_cases hfull : bank.mCurrentFinalHash = bank.mFinalHash
  · rw [if_pos hfull, setBankStatus_depleted]
    dsimp only
    rw [ListUpdate.modify_concat, CTokenPoolBank.inferred, if_pos hfull]
    exact ⟨_, rfl⟩
  · rw [if_neg hfull, CTokenPoolBank.inferred, if_neg hfull, ← hactive]
    exact ⟨_, rfl⟩

theorem readBank_eq {pool : CTokenPool} {id : ℕ} {bank : CTokenPoolBank}
    (hplain : bank.Plain cf pool id) :
    pool.readBank cf id (bank.getFinalHash false) bank.mCurrentFinalHash
        (BigIntToBytes bank.mCurrentDepth.toNat) = { bank with mStatus := .active } := by
  obtain ⟨hid, hseed, hindex, hpre, hpreDepth⟩ := hplain
  simp only [readBank, CTokenPoolBank.getFinalHash, true_or, if_true, BytesToBigInt_BigIntToBytes,
    BitVec.ofNat_toNat, BitVec.setWidth_eq, hid, hseed, hindex, hpre, hpreDepth]

/-- The decoding loop appends the banks it reads, with the status it infers for each of them; what
it makes of the pool status in passing is overwritten later. -/
theorem decodeBanks_packed (banks : List CTokenPoolBank) (pool : CTokenPool)
    (hplain : ∀ (i : ℕ) (bank : CTokenPoolBank), banks[i]? = some bank →
      bank.Plain cf pool (pool.mBanks.length + i)) :
    ∃ status, decodeBanks cf pool pool.mBanks.length (banks.map CTokenPoolBank.packed) =
      some { pool with
        mBanks := pool.mBanks ++ banks.map CTokenPoolBank.inferred
        mStatus := status } := by
  induction banks generalizing pool with
  | nil => exact ⟨pool.mStatus, by simp [decodeBanks]⟩
  | cons bank banks ih =>
      have hread := readBank_eq (hplain 0 bank rfl)
      obtain ⟨pushed, hpush⟩ := @pushBank_eq pool { bank with mStatus := .active } rfl
      let next := pool.pushBank pool.mBanks.length { bank with mStatus := .active }
      have hnext : next.mBanks.length = pool.mBanks.length + 1 := by
        simp only [next, hpush, List.length_append, List.length_singleton]
      have hrest : ∀ (i : ℕ) (other : CTokenPoolBank), banks[i]? = some other →
          other.Plain cf next (next.mBanks.length + i) := by
        intro i other hother
        obtain ⟨hid, hseed, hindex, hpre, hpreDepth⟩ := hplain (i + 1) other hother
        rw [hnext, Nat.add_assoc, Nat.add_comm 1 i]
        refine ⟨hid, hseed.trans ?_, hindex, hpre, hpreDepth⟩
        apply getSeedingHashForDimension_congr <;> simp only [next, hpush]
      obtain ⟨status, hloop⟩ := ih next hrest
      refine ⟨status, ?_⟩
      have hfirst : decodeBanks cf pool pool.mBanks.length
          ((bank :: banks).map CTokenPoolBank.packed) =
          decodeBanks cf next next.mBanks.length (banks.map CTokenPoolBank.packed) := by
        rw [hnext, List.map_cons, CTokenPoolBank.packed, decodeBanks]
        exact congrArg
          (fun read => decodeBanks cf (pool.pushBank pool.mBanks.length read) _ _) hread
      rw [hfirst, hloop]
      simp only [next, hpush, List.append_assoc, List.map_cons, List.singleton_append]
      rfl

/-- A pool as `generateDimensions` and `validateTT` leave it. -/
structure Plain (cf : CCryptoFactory) (pool : CTokenPool) : Prop where
  seed_length : pool.mMasterSeedHash.length = 32
  plain : ∀ (id : ℕ) (bank : CTokenPoolBank), pool.mBanks[id]? = some bank →
    bank.Plain cf pool id

/-- What comes back of a plain pool. -/
theorem instantiate_getPackedData {pool : CTokenPool} (hplain : pool.Plain cf)
    (hversion : pool.mVersion = 2) (hcount : pool.mDimensionsCount.toNat < 2 ^ 32) (random : Bytes32) :
    instantiate cf random (pool.getPackedData true) [] =
      some { pool with
        mBanks := pool.mBanks.map CTokenPoolBank.inferred
        mPubKey := if pool.mPubKey.length = 32 then pool.mPubKey else [] } := by
  let fields : CTokenPool :=
    { pool with mBanks := [], mPubKey := [], mFriendlyID := [], mStatus := .active, mVersion := 2 }
  have hfields : ∀ (i : ℕ) (bank : CTokenPoolBank), pool.mBanks[i]? = some bank →
      bank.Plain cf fields (fields.mBanks.length + i) := by
    intro i bank hbank
    obtain ⟨hid, hseed, hindex, hpre, hpreDepth⟩ := hplain.plain i bank hbank
    rw [List.length_nil, Nat.zero_add]
    exact ⟨hid, hseed, hindex, hpre, hpreDepth⟩
  obtain ⟨status, hbanks⟩ := decodeBanks_packed pool.mBanks fields hfields
  have hkey : decodePubKey (if pool.mPubKey.length = 32 then [.octets pool.mPubKey] else []) =
      some (if pool.mPubKey.length = 32 then pool.mPubKey else []) := by
    split_ifs <;> rfl
  have hsmall : ¬(pool.mDimensionsCount.toNat ≥ 2 ^ 32 ∨ pool.mStatus.packed ≥ 2 ^ 32) :=
    not_or.mpr ⟨Nat.not_le.mpr hcount, Nat.not_le.mpr pool.mStatus.packed_lt⟩
  unfold getPackedData instantiate
  simp only [List.cons_append, List.nil_append, hversion, true_and, if_pos hplain.seed_length]
  rw [if_neg (by decide), if_neg (by decide), if_neg hsmall, if_neg (by decide)]
  simp only [BytesToBigInt_BigIntToBytes, BitVec.ofNat_toNat, BitVec.setWidth_eq, UInt64.ofNat_toNat,
    eTokenPoolStatus.unpacked_packed]
  change (decodeBanks cf fields fields.mBanks.length _).bind _ = _
  rw [hbanks, hkey]
  rfl

/-- A pool of another version comes back as it was constructed, if at all. -/
theorem instantiate_of_version {pool copy : CTokenPool} (hversion : pool.mVersion ≠ 2) {random : Bytes32}
    (hcopy : instantiate cf random (pool.getPackedData true) [] = some copy) :
    copy = { mTokenPoolID := random.val, mVersion := pool.mVersion } := by
  have hother : pool.mVersion.toNat ≠ 2 := fun h => hversion (UInt64.toNat_inj.mp h)
  unfold getPackedData instantiate at hcopy
  dsimp only at hcopy
  split_ifs at hcopy
  rw [UInt64.ofNat_toNat, Option.some_inj] at hcopy
  exact hcopy.symm

/-- A pool of so many banks that their number takes over 32 bits does not come back. -/
theorem instantiate_of_count {pool : CTokenPool} (hversion : pool.mVersion = 2)
    (hcount : 2 ^ 32 ≤ pool.mDimensionsCount.toNat) (random : Bytes32) :
    instantiate cf random (pool.getPackedData true) [] = none := by
  unfold getPackedData instantiate
  simp only [List.cons_append, List.nil_append, hversion]
  rw [if_neg (by decide), if_neg (by decide), if_pos (.inl hcount)]

/-! ### Runs -/

theorem generateDimensions_plain {pool generated : CTokenPool} {verify : Bool} {random : Bytes32}
    (h : pool.generateDimensions cf verify random = some generated) : generated.Plain cf := by
  rw [generateDimensions_eq pool cf verify h]
  refine ⟨random.property, fun id bank hbank => ?_⟩
  obtain ⟨hid, rfl⟩ := List.getElem?_eq_some_iff.mp hbank
  rw [List.getElem_map, List.getElem_range]
  refine ⟨rfl, ?_, rfl, rfl, rfl⟩
  rw [getSeedingHashForDimension, if_neg (not_not_intro random.property)]
  rfl

theorem Plain.receive {pool : CTokenPool} (hplain : pool.Plain cf) (token : CTransmissionToken) :
    (pool.receive cf token).2.Plain cf := by
  rcases receive_cases cf pool token with ⟨bank, hbank, heq⟩ | ⟨_, isValid, heq⟩
  · rw [heq]
    refine ⟨hplain.seed_length, fun id other hother => ?_⟩
    rw [moveTo_mBanks, List.getElem?_modify] at hother
    cases hentry : pool.mBanks[id]? with
    | none => simp [hentry] at hother
    | some before =>
        obtain ⟨hid, hseed, hindex, hpre, hpreDepth⟩ := hplain.plain id before hentry
        rw [hentry, Option.map_eq_map, Option.map_some, Option.some_inj] at hother
        subst hother
        split_ifs
        · exact ⟨hid, hseed, hindex, hpre, hpreDepth⟩
        · exact ⟨hid, hseed, hindex, hpre, hpreDepth⟩
  · rw [heq]
    exact hplain

/-- A pool that comes back of its packed data as the same pool: equal under `operator==`, with the
same status, depth, ceiling and value left of every bank, and with the same answers to whatever
tokens come next. -/
def SurvivesPacking (cf : CCryptoFactory) (pool : CTokenPool) : Prop :=
  ∀ random : Bytes32, ∃ copy, instantiate cf random (pool.getPackedData true) [] = some copy ∧
    pool.equals copy = true ∧
    (∀ id, (copy.getBankById id).map (fun bank =>
        (bank.mStatus, bank.mCurrentDepth, bank.getFinalHash true, bank.getValueLeft copy)) =
      (pool.getBankById id).map fun bank =>
        (bank.mStatus, bank.mCurrentDepth, bank.getFinalHash true, bank.getValueLeft pool)) ∧
    ∀ tokens, Machine.answers (receive cf) copy tokens = Machine.answers (receive cf) pool tokens

/-- A pool whose packed data determine it: of version 2, with a number of banks that takes 32 bits, a
public key of 32 bytes if with any, and with exactly those banks depleted whose current hash is their
final hash. -/
structure Inferable (pool : CTokenPool) : Prop where
  version_eq : pool.mVersion = 2
  count_lt : pool.mDimensionsCount.toNat < 2 ^ 32
  key_length : pool.mPubKey = [] ∨ pool.mPubKey.length = 32
  status_iff : ∀ bank ∈ pool.mBanks,
    bank.mStatus = .depleted ↔ bank.mCurrentFinalHash = bank.mFinalHash

theorem survivesPacking_of_inferable {pool : CTokenPool} (hplain : pool.Plain cf)
    (h : pool.Inferable) : pool.SurvivesPacking cf := by
  have hbanks : pool.mBanks.map CTokenPoolBank.inferred = pool.mBanks := by
    refine (List.map_congr_left fun bank hbank => ?_).trans (List.map_id _)
    have hstatus := h.status_iff bank hbank
    unfold CTokenPoolBank.inferred
    split_ifs with hfull
    · rw [← hstatus.mpr hfull]
      rfl
    · have hactive : bank.mStatus = .active := by
        cases hbank : bank.mStatus with
        | active => rfl
        | depleted => exact absurd (hstatus.mp hbank) hfull
      rw [← hactive]
      rfl
  have hkey : (if pool.mPubKey.length = 32 then pool.mPubKey else []) = pool.mPubKey := by
    split_ifs with hlength
    · rfl
    · exact (h.key_length.resolve_right hlength).symm
  intro random
  refine ⟨pool, ?_, pool.equals_self, fun _ => rfl, fun _ => rfl⟩
  rw [instantiate_getPackedData hplain h.version_eq h.count_lt, hbanks, hkey]

theorem inferable_of_survivesPacking {pool : CTokenPool} (hplain : pool.Plain cf)
    (h : pool.SurvivesPacking cf) : pool.Inferable := by
  have hversion : pool.mVersion = 2 := by
    by_contra hother
    have hid : ∀ random : Bytes32, pool.mTokenPoolID = random.val := by
      intro random
      obtain ⟨copy, hcopy, hequals, -⟩ := h random
      obtain rfl := instantiate_of_version hother hcopy
      simp only [equals, Bool.and_eq_true, decide_eq_true_eq] at hequals
      exact hequals.1.2.2.2.2.2.2.2.1
    exact absurd ((hid (countingBytes 0)).symm.trans (hid (countingBytes 1))) (by decide)
  obtain ⟨copy, hcopy, hequals, -⟩ := h (countingBytes 0)
  have hcount : pool.mDimensionsCount.toNat < 2 ^ 32 := by
    by_contra hlarge
    rw [instantiate_of_count hversion (Nat.not_lt.mp hlarge)] at hcopy
    cases hcopy
  rw [instantiate_getPackedData hplain hversion hcount, Option.some_inj] at hcopy
  subst hcopy
  simp only [equals, Bool.and_eq_true, decide_eq_true_eq] at hequals
  obtain ⟨hfields, hall⟩ := hequals
  refine ⟨hversion, hcount, ?_, fun bank hbank => ?_⟩
  · have hkey := hfields.2.2.2.2.2.2.2.2.2.2
    split_ifs at hkey with hlength
    · exact Or.inr hlength
    · exact Or.inl hkey
  · obtain ⟨i, hi⟩ := List.mem_iff_getElem?.mp hbank
    have hsame := List.all_eq_true.mp hall (bank, i) (List.mem_zipIdx_iff_getElem?.mpr hi)
    dsimp only at hsame
    rw [List.getElem?_map, hi, Option.map_some, Option.any_some, CTokenPoolBank.equals,
      decide_eq_true_eq] at hsame
    have hstatus : bank.mStatus = bank.inferred.mStatus := hsame.2.2.2.2.2.2.2
    rw [hstatus, CTokenPoolBank.inferred]
    dsimp only
    split_ifs with hfull
    · exact iff_of_true rfl hfull
    · exact iff_of_false id hfull

/-- **A pool that was generated and has taken in tokens survives packing exactly if its packed data
determine the status of its banks.** -/
theorem survivesPacking_iff {pool generated : CTokenPool} {verify : Bool} {random : Bytes32}
    (hgen : pool.generateDimensions cf verify random = some generated)
    (tokens : List CTransmissionToken) :
    (Machine.final (receive cf) generated tokens).SurvivesPacking cf ↔
      (Machine.final (receive cf) generated tokens).Inferable := by
  have hplain : (Machine.final (receive cf) generated tokens).Plain cf :=
    Machine.invariant_final (fun _ token hplain => hplain.receive token)
      (generateDimensions_plain hgen) tokens
  exact ⟨inferable_of_survivesPacking hplain, survivesPacking_of_inferable hplain⟩

end CTokenPool

/-- The seed of `oneTokenGenerated`, revealed as the only token of the pool. -/
def lastToken : CTransmissionToken :=
  { mBankIndex := 0, mValue := 1, mRevealedHash := (countingBytes 2).val
    mRevealedHashesCount := 1, mBankUsageDepth := 1 }

theorem survivesPacking_iff_oneToken :
    (Machine.final (CTokenPool.receive countingHash) oneTokenGenerated
      [lastToken]).SurvivesPacking countingHash ↔
    (Machine.final (CTokenPool.receive countingHash) oneTokenGenerated [lastToken]).Inferable :=
  CTokenPool.survivesPacking_iff oneTokenPool_generated [lastToken]

/-- A bank that was used up comes back as one in use. -/
theorem survivesPacking_fails :
    oneTokenPool.generateDimensions countingHash true (countingBytes 0) = some oneTokenGenerated ∧
    (((Machine.final (CTokenPool.receive countingHash) oneTokenGenerated
      [lastToken]).getBankById 0).map CTokenPoolBank.mStatus = some .depleted) ∧
    ¬(Machine.final (CTokenPool.receive countingHash) oneTokenGenerated
      [lastToken]).SurvivesPacking countingHash := by
  refine ⟨oneTokenPool_generated, by decide, fun hsurvives => ?_⟩
  obtain ⟨copy, hcopy, -, hbanks, -⟩ := hsurvives (countingBytes 0)
  have hactive : ((CTokenPool.instantiate countingHash (countingBytes 0)
      ((Machine.final (CTokenPool.receive countingHash) oneTokenGenerated
        [lastToken]).getPackedData true) []).bind fun pool =>
        (pool.getBankById 0).map CTokenPoolBank.mStatus) = some .active := by
    decide
  have hstatus := congrArg (Option.map Prod.fst) (hbanks 0)
  rw [hcopy, Option.bind_some] at hactive
  rw [Option.map_map, Option.map_map] at hstatus
  exact absurd (hactive.symm.trans hstatus) (by decide)

end Gridnet
