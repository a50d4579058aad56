import Gridnet.PoolModel
import Gridnet.ListUpdate
import Mathlib.Tactic.Ring

/-! What one call of `validateTT` can do: a token is refused and nothing changes, it repeats the
current state, or it moves the ceiling of one bank and is paid by the depth it adds. -/

namespace Gridnet

/-! ### Values -/

namespace CTokenPool

variable (pool : CTokenPool)

theorem getSingleTokenValue_toNat (hD : pool.mDimensionDepth ≠ 0) (hN : pool.mDimensionsCount ≠ 0) :
    pool.getSingleTokenValue.toNat = pool.mTotalValue.toNat /
      (pool.mDimensionDepth.toNat * pool.mDimensionsCount.toNat) := by
  rw [getSingleTokenValue, if_neg (not_or.mpr ⟨hD, hN⟩), BitVec.toNat_ofNat]
  exact Nat.mod_eq_of_lt ((Nat.div_le_self _ _).trans_lt pool.mTotalValue.isLt)

/-- The tokens of all banks together are worth at most the total value. -/
theorem all_banks_le_total :
    pool.mDimensionsCount.toNat * (pool.mDimensionDepth.toNat * pool.getSingleTokenValue.toNat) ≤
      pool.mTotalValue.toNat := by
  by_cases hD : pool.mDimensionDepth = 0
  · simp [hD]
  by_cases hN : pool.mDimensionsCount = 0
  · simp [hN]
  rw [pool.getSingleTokenValue_toNat hD hN, ← Nat.mul_assoc,
    Nat.mul_comm pool.mDimensionsCount.toNat]
  exact Nat.mul_div_le _ _

/-- So are the tokens of one bank: without banks a token is worth nothing. -/
theorem one_bank_le_total :
    pool.mDimensionDepth.toNat * pool.getSingleTokenValue.toNat ≤ pool.mTotalValue.toNat := by
  by_cases hN : pool.mDimensionsCount = 0
  · simp [getSingleTokenValue, hN]
  · have hpos : 0 < pool.mDimensionsCount.toNat :=
      Nat.pos_of_ne_zero fun h => hN (UInt64.toNat_inj.mp h)
    exact (Nat.le_mul_of_pos_left _ hpos).trans pool.all_banks_le_total

/-- The value of a stretch of a bank that ends at or before its last token does not wrap. -/
theorem worth_toNat {c d : BigInt} (hcd : c ≤ d) (hd : d ≤ pool.mDimensionDepth) :
    (pool.getSingleTokenValue * (d - c)).toNat =
      pool.getSingleTokenValue.toNat * (d.toNat - c.toNat) := by
  rw [BitVec.toNat_mul, BitVec.toNat_sub_of_le hcd]
  apply Nat.mod_eq_of_lt
  have hle : d.toNat - c.toNat ≤ pool.mDimensionDepth.toNat :=
    (Nat.sub_le _ _).trans (BitVec.le_def.mp hd)
  calc pool.getSingleTokenValue.toNat * (d.toNat - c.toNat)
      ≤ pool.getSingleTokenValue.toNat * pool.mDimensionDepth.toNat := Nat.mul_le_mul_left _ hle
    _ = pool.mDimensionDepth.toNat * pool.getSingleTokenValue.toNat := Nat.mul_comm _ _
    _ ≤ pool.mTotalValue.toNat := pool.one_bank_le_total
    _ < 2 ^ 256 := pool.mTotalValue.isLt

end CTokenPool

/-- What is left in a bank that is not marked as depleted. -/
theorem CTokenPoolBank.getValueLeft_toNat {bank : CTokenPoolBank} {pool : CTokenPool}
    (hactive : bank.mStatus ≠ .depleted) (hdepth : bank.mCurrentDepth ≤ pool.mDimensionDepth) :
    (bank.getValueLeft pool).toNat = pool.getSingleTokenValue.toNat *
      (pool.mDimensionDepth.toNat - bank.mCurrentDepth.toNat) := by
  rw [getValueLeft, if_neg hactive]
  split_ifs with hnone
  · rcases hnone with hD | hfull
    · simp [hD]
    · simp [hfull]
  · rw [BitVec.mul_comm]
    exact pool.worth_toNat hdepth (BitVec.le_refl _)

/-! ### The update -/

/-- A bank whose ceiling was moved to `hash` at `depth`, in a pool of banks `dimensionDepth` deep. -/
def CTokenPoolBank.movedTo (bank : CTokenPoolBank) (dimensionDepth depth : BigInt) (hash : Bytes) :
    CTokenPoolBank :=
  { bank with
    mCurrentFinalHash := hash
    mCurrentDepth := depth
    mStatus := if dimensionDepth ≤ depth then .depleted else bank.mStatus }

/-- The pool status once the banks are `banks`, if one of them was just marked as depleted. -/
def CTokenPool.statusFor (pool : CTokenPool) (banks : List CTokenPoolBank) : eTokenPoolStatus :=
  if banks.all (fun bank => bank.mStatus = .depleted) then .depleted else pool.mStatus

/-- A pool after the ceiling of the bank `id` was moved. -/
def CTokenPool.moveTo (pool : CTokenPool) (id : ℕ) (depth : BigInt) (hash : Bytes) : CTokenPool :=
  { pool with
    mBanks := pool.mBanks.modify id fun bank => bank.movedTo pool.mDimensionDepth depth hash
    mStatus := if pool.mDimensionDepth ≤ depth then
        pool.statusFor
          (pool.mBanks.modify id fun bank => bank.movedTo pool.mDimensionDepth depth hash)
      else pool.mStatus }

namespace CTokenPool

variable (pool : CTokenPool) (token : CTransmissionToken) (id : ℕ) (depth : BigInt) (hash : Bytes)

theorem notifyBankStatusChanged_depleted :
    pool.notifyBankStatusChanged .depleted = { pool with mStatus := pool.statusFor pool.mBanks } := by
  rw [notifyBankStatusChanged, statusFor]
  split <;> rfl

theorem setBankStatus_depleted :
    pool.setBankStatus id .depleted =
      { pool with
        mBanks := pool.mBanks.modify id fun bank => { bank with mStatus := .depleted }
        mStatus := pool.statusFor
          (pool.mBanks.modify id fun bank => { bank with mStatus := .depleted }) } :=
  notifyBankStatusChanged_depleted _

/-- Moving the ceiling of a bank and then marking the bank as depleted. -/
theorem setBankStatus_modifyBank {bank : CTokenPoolBank} (hbank : pool.mBanks[id]? = some bank)
    (hlast : pool.mDimensionDepth ≤ depth) :
    (pool.modifyBank id fun _ =>
        { bank with mCurrentDepth := depth, mCurrentFinalHash := hash }).setBankStatus id .depleted =
      pool.moveTo id depth hash := by
  have hbanks : (pool.mBanks.modify id fun _ =>
        { bank with mCurrentDepth := depth, mCurrentFinalHash := hash }).modify id
        (fun bank => { bank with mStatus := .depleted }) =
      pool.mBanks.modify id fun bank => bank.movedTo pool.mDimensionDepth depth hash := by
    rw [List.modify_modify_eq]
    refine ListUpdate.modify_congr hbank ?_
    simp [CTokenPoolBank.movedTo, hlast]
  rw [setBankStatus_depleted, modifyBank, hbanks, moveTo, if_pos hlast]
  rfl

theorem modifyBank_eq_moveTo {bank : CTokenPoolBank} (hbank : pool.mBanks[id]? = some bank)
    (hlast : ¬pool.mDimensionDepth ≤ depth) :
    (pool.modifyBank id fun _ =>
        { bank with mCurrentDepth := depth, mCurrentFinalHash := hash }) =
      pool.moveTo id depth hash := by
  rw [modifyBank, moveTo, if_neg hlast]
  congr 1
  refine ListUpdate.modify_congr hbank ?_
  simp [CTokenPoolBank.movedTo, hlast]

/-- The update of `validateTT` moves the ceiling of one bank and touches nothing else. -/
theorem consume_eq {bank : CTokenPoolBank} (hbank : pool.getBankById token.mBankIndex = some bank) :
    pool.consume token =
      pool.moveTo token.mBankIndex.toNat token.mBankUsageDepth token.mRevealedHash := by
  have hentry : pool.mBanks[token.mBankIndex.toNat]? = some bank := hbank
  have hmoved : (pool.modifyBank token.mBankIndex.toNat fun bank =>
        { bank with
          mCurrentFinalHash := token.mRevealedHash
          mCurrentDepth := token.mBankUsageDepth }) =
      pool.modifyBank token.mBankIndex.toNat fun _ =>
        { bank with
          mCurrentDepth := token.mBankUsageDepth
          mCurrentFinalHash := token.mRevealedHash } := by
    rw [modifyBank, modifyBank]
    congr 1
    exact ListUpdate.modify_congr hentry rfl
  rw [consume]
  by_cases hlast : pool.mDimensionDepth ≤ token.mBankUsageDepth
  · rw [if_pos hlast, hmoved, setBankStatus_modifyBank _ _ _ _ hentry hlast]
  · rw [if_neg hlast, hmoved, modifyBank_eq_moveTo _ _ _ _ hentry hlast]

@[simp] theorem moveTo_mDimensionDepth :
    (pool.moveTo id depth hash).mDimensionDepth = pool.mDimensionDepth := rfl

@[simp] theorem moveTo_mBanks :
    (pool.moveTo id depth hash).mBanks =
      pool.mBanks.modify id fun bank => bank.movedTo pool.mDimensionDepth depth hash := rfl

end CTokenPool

/-! ### The three outcomes -/

/-- A token that passes every check of `validateTT` on a bank and moves its ceiling. -/
structure CTokenPool.Accepts (pool : CTokenPool) (cf : CCryptoFactory)
    (token : CTransmissionToken) (bank : CTokenPoolBank) : Prop where
  pool_active : pool.mStatus = .active
  signed : ¬(pool.mPubKey.length = 32 ∧ token.mSig.length > 0 ∧
    cf.verifySignature token.mSig (token.getPackedData false) pool.mPubKey = false)
  count_ne_zero : token.mRevealedHashesCount ≠ 0
  value_le_total : token.mValue ≤ pool.getTotalValue
  bank_eq : pool.getBankById token.mBankIndex = some bank
  bank_active : bank.mStatus ≠ .depleted
  value_le_left : token.mValue ≤ bank.getValueLeft pool
  depth_le : bank.mCurrentDepth ≤ token.mBankUsageDepth
  moves : ¬(token.mBankUsageDepth = bank.mCurrentDepth ∧
    token.mRevealedHash = bank.mCurrentFinalHash)
  revealed_length : token.mRevealedHash.length = 32
  ceiling_length : (bank.getFinalHash true).length = 32
  reaches_ceiling :
    cf.getSHA2_256Vec^[token.mBankUsageDepth.toNat - bank.mCurrentDepth.toNat]
      token.mRevealedHash = bank.getFinalHash true

namespace CTokenPool

variable {pool : CTokenPool} {cf : CCryptoFactory} {token : CTransmissionToken}
  {bank : CTokenPoolBank}

theorem Accepts.validateTT_eq (h : pool.Accepts cf token bank) (updateState : Bool) :
    pool.validateTT cf token updateState =
      (⟨pool.getSingleTokenValue * (token.mBankUsageDepth - bank.mCurrentDepth), true⟩,
        if updateState then
          pool.moveTo token.mBankIndex.toNat token.mBankUsageDepth token.mRevealedHash
        else pool) := by
  have hwalk := h.reaches_ceiling
  rw [← BitVec.toNat_sub_of_le h.depth_le] at hwalk
  have hlengths : ¬(token.mRevealedHash.length ≠ 32 ∨ (bank.getFinalHash true).length ≠ 32) := by
    simp [h.revealed_length, h.ceiling_length]
  simp only [validateTT, h.bank_eq]
  rw [if_neg (not_not_intro h.pool_active), if_neg h.signed, if_neg h.count_ne_zero,
    if_neg (BitVec.not_lt.mpr h.value_le_total), if_neg h.bank_active,
    if_neg (BitVec.not_lt.mpr h.value_le_left), if_neg (BitVec.not_lt.mpr h.depth_le),
    if_neg h.moves, if_neg hlengths, if_neg (not_not_intro hwalk),
    pool.consume_eq token h.bank_eq]

/-- A token no bank accepts is worth nothing and leaves the pool as it was. -/
theorem validateTT_of_not_accepts (h : ∀ bank, ¬pool.Accepts cf token bank) (updateState : Bool) :
    ∃ isValid, pool.validateTT cf token updateState = (⟨0, isValid⟩, pool) := by
  rw [validateTT]
  by_cases hstatus : pool.mStatus ≠ .active
  · exact ⟨false, if_pos hstatus⟩
  rw [if_neg hstatus]
  by_cases hsig : pool.mPubKey.length = 32 ∧ token.mSig.length > 0 ∧
      cf.verifySignature token.mSig (token.getPackedData false) pool.mPubKey = false
  · exact ⟨false, if_pos hsig⟩
  rw [if_neg hsig]
  by_cases hcount : token.mRevealedHashesCount = 0
  · exact ⟨false, if_pos hcount⟩
  rw [if_neg hcount]
  by_cases htotal : pool.getTotalValue < token.mValue
  · exact ⟨false, if_pos htotal⟩
  rw [if_neg htotal]
  cases hbank : pool.getBankById token.mBankIndex with
  | none => exact ⟨false, rfl⟩
  | some bank =>
      dsimp only
      by_cases hdepleted : bank.mStatus = .depleted
      · exact ⟨false, if_pos hdepleted⟩
      rw [if_neg hdepleted]
      by_cases hleft : bank.getValueLeft pool < token.mValue
      · exact ⟨false, if_pos hleft⟩
      rw [if_neg hleft]
      by_cases hdepth : token.mBankUsageDepth < bank.mCurrentDepth
      · exact ⟨false, if_pos hdepth⟩
      rw [if_neg hdepth]
      by_cases hrepeat : token.mBankUsageDepth = bank.mCurrentDepth ∧
          token.mRevealedHash = bank.mCurrentFinalHash
      · exact ⟨true, if_pos hrepeat⟩
      rw [if_neg hrepeat]
      by_cases hlength : token.mRevealedHash.length ≠ 32 ∨ (bank.getFinalHash true).length ≠ 32
      · exact ⟨false, if_pos hlength⟩
      rw [if_neg hlength]
      by_cases hwalk : cf.getSHA2_256Vec^[(token.mBankUsageDepth - bank.mCurrentDepth).toNat]
          token.mRevealedHash ≠ bank.getFinalHash true
      · exact ⟨false, if_pos hwalk⟩
      refine absurd ?_ (h bank)
      push Not at hlength hwalk
      rw [BitVec.toNat_sub_of_le (BitVec.not_lt.mp hdepth)] at hwalk
      exact ⟨not_not.mp hstatus, hsig, hcount, BitVec.not_lt.mp htotal, hbank, hdepleted,
        BitVec.not_lt.mp hleft, BitVec.not_lt.mp hdepth, hrepeat, hlength.1, hlength.2, hwalk⟩

end CTokenPool

namespace CTokenPool

variable (pool : CTokenPool)

/-! ### Generation -/

variable (cf : CCryptoFactory) (verify : Bool)

/-- The second walk of a chain always agrees with the first, so the loop builds all its banks. -/
theorem generateBanks_eq (count a : ℕ) (masterNr : Bytes) :
    pool.generateBanks cf verify count a masterNr = some ((List.range count).map fun k =>
      pool.freshBank cf (a + k) (cf.seedingLoop (a + k) count a masterNr)) := by
  induction count generalizing a masterNr with
  | zero => rfl
  | succ count ih =>
      have hverify : ¬(verify = true ∧
          cf.getSHA2_256Vec^[pool.mDimensionDepth.toNat] (cf.dimensionSwitch masterNr).2 ≠
            (pool.freshBank cf a (cf.dimensionSwitch masterNr).2).mFinalHash) :=
        fun h => h.2 rfl
      rw [generateBanks, if_neg hverify, ih, Option.map_some, List.range_succ_eq_map,
        List.map_cons, List.map_map]
      congr 2
      · rw [CCryptoFactory.seedingLoop, Nat.add_zero, if_pos rfl]
      · refine List.map_congr_left fun k _ => ?_
        have hne : a ≠ a + (k + 1) := by omega
        simp only [Function.comp_apply, Nat.succ_eq_add_one, CCryptoFactory.seedingLoop,
          if_neg hne, Nat.add_assoc, Nat.add_comm 1 k]

/-- A generated pool: the random master seed, and a fresh bank over each of its bank seeds. -/
theorem generateDimensions_eq {random : Bytes32} {generated : CTokenPool}
    (h : pool.generateDimensions cf verify random = some generated) :
    generated = { pool with
      mMasterSeedHash := random.val
      mBanks := (List.range pool.mDimensionsCount.toNat).map fun k =>
        pool.freshBank cf k (cf.seedingLoop k pool.mDimensionsCount.toNat 0 random.val) } := by
  rw [generateDimensions] at h
  split at h
  · cases h
  · rw [generateBanks_eq, Option.map_some, Option.some_inj] at h
    simpa only [Nat.zero_add] using h.symm

theorem dimensionSwitch_length (masterNr : Bytes) : (cf.dimensionSwitch masterNr).2.length = 32 :=
  cf.getSHA2_256Vec_length _

theorem seedingLoop_length {k count a : ℕ} (hfrom : a ≤ k) (hto : k < a + count)
    (masterNr : Bytes) : (cf.seedingLoop k count a masterNr).length = 32 := by
  induction count generalizing a masterNr with
  | zero => omega
  | succ count ih =>
      unfold CCryptoFactory.seedingLoop
      dsimp only
      split_ifs with hhere
      · exact dimensionSwitch_length cf masterNr
      · exact ih (by omega) (by omega) _

end CTokenPool

/-! ### A pool of one token -/

/-- A hash that counts in the first byte. -/
def countingHash : CCryptoFactory where
  getSHA2_256Vec data := (data.headD 0 + 1) :: List.replicate 31 0
  getSHA2_256Vec_length _ := by simp
  verifySignature _ _ _ := true

/-- `n` as the first of 32 bytes. -/
def countingBytes (n : UInt8) : Bytes32 := ⟨n :: List.replicate 31 0, by simp⟩

/-- A pool of one bank with one token worth one unit, before its dimensions are generated. -/
def oneTokenPool : CTokenPool :=
  { mDimensionsCount := 1, mDimensionDepth := 1, mTotalValue := 1 }

/-- `oneTokenPool` generated from zeros: the bank seed is `countingBytes 2`. -/
def oneTokenGenerated : CTokenPool :=
  { oneTokenPool with
    mMasterSeedHash := (countingBytes 0).val
    mBanks := [{ mID := 0, mFinalHash := (countingBytes 3).val, mSeedHash := (countingBytes 2).val }] }

theorem oneTokenPool_generated :
    oneTokenPool.generateDimensions countingHash true (countingBytes 0) =
      some oneTokenGenerated := by decide

end Gridnet
