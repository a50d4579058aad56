import Gridnet.PoolModel
import Gridnet.WalletModel

/-! What a token of a new pool is worth. The node rounds the total value down to what the tokens of all banks are
worth together; the wallet keeps the value it is given. -/

namespace Gridnet

/-- `CTokenPool` with the 32 bytes drawn for its ID; `none` where the assertion fails. The quotients of `BigFloat` are
taken exact. -/
def CTokenPool.construct (random : Bytes32) (dimensionsCount : UInt64) (ownerID transactionID : Bytes)
    (valuePerToken totalValue : BigInt) (friendlyID seedHash : Bytes) : Option CTokenPool :=
  if valuePerToken = 0 then none
  else
    let totalTokensCount : BigInt := .ofNat 256 (totalValue.toNat / valuePerToken.toNat)
    let mDimensionDepth : BigInt :=
      if dimensionsCount = 0 then 0 else .ofNat 256 (totalTokensCount.toNat / dimensionsCount.toNat)
    some
      { mReceiptID := transactionID
        mTokenPoolID := random.val
        mDimensionsCount := dimensionsCount
        mDimensionDepth := mDimensionDepth
        mTotalValue := valuePerToken * .ofNat 256 dimensionsCount.toNat * mDimensionDepth
        mFriendlyID := friendlyID
        mMasterSeedHash := seedHash
        mOwnerID := ownerID }

/-- The constructor of the wallet; `none` for the `RangeError` of a division by zero. -/
def Wallet.CTokenPool.construct (random : Bytes32) (dimensionsCount valuePerToken totalValue : ℕ) :
    Option Wallet.CTokenPool :=
  if valuePerToken = 0 ∨ dimensionsCount = 0 then none
  else some
    { mTokenPoolID := random.val
      mTotalValue := totalValue
      mDimensionsCount := dimensionsCount
      mDimensionDepth := totalValue / valuePerToken / dimensionsCount }

/-- Every token of the pool is worth what it was constructed for, and less than one token for each bank is left
over. -/
structure CTokenPool.Priced (pool : CTokenPool) (dimensionsCount : UInt64) (valuePerToken totalValue : BigInt) :
    Prop where
  depth : pool.mDimensionDepth.toNat = totalValue.toNat / valuePerToken.toNat / dimensionsCount.toNat
  total : pool.mTotalValue.toNat = valuePerToken.toNat * dimensionsCount.toNat * pool.mDimensionDepth.toNat
  total_le : pool.mTotalValue.toNat ≤ totalValue.toNat
  lt_total : totalValue.toNat < pool.mTotalValue.toNat + valuePerToken.toNat * dimensionsCount.toNat
  single : 0 < pool.mDimensionDepth.toNat → pool.getSingleTokenValue = valuePerToken

/-- The pools of the node and of the wallet have the same depth and values. -/
structure SamePrices (pool : CTokenPool) (walletPool : Wallet.CTokenPool) : Prop where
  depth : walletPool.mDimensionDepth = pool.mDimensionDepth.toNat
  total : walletPool.getTotalValue = pool.getTotalValue.toNat
  single : walletPool.getSingleTokenValue = pool.getSingleTokenValue.toNat

section Pricing

variable (random walletRandom : Bytes32) (dimensionsCount : UInt64) (ownerID transactionID : Bytes)
  (valuePerToken totalValue : BigInt) (friendlyID seedHash : Bytes)

/-- Both constructors fix the price that they are given. -/
def FixesPrice : Prop :=
  ∃ pool walletPool,
    CTokenPool.construct random dimensionsCount ownerID transactionID valuePerToken totalValue friendlyID
      seedHash = some pool ∧
    Wallet.CTokenPool.construct walletRandom dimensionsCount.toNat valuePerToken.toNat totalValue.toNat =
      some walletPool ∧
    pool.Priced dimensionsCount valuePerToken totalValue ∧ SamePrices pool walletPool

variable {random walletRandom dimensionsCount ownerID transactionID valuePerToken totalValue friendlyID seedHash}

/-- The tokens of all banks are worth no more than the value that they were cut from. -/
theorem rounded_le (total price banks : ℕ) : price * banks * (total / price / banks) ≤ total := by
  rw [Nat.div_div_eq_div_mul]
  exact Nat.mul_div_le total (price * banks)

theorem lt_rounded {price banks : ℕ} (hprice : 0 < price) (hbanks : 0 < banks) (total : ℕ) :
    total < price * banks * (total / price / banks) + price * banks := by
  rw [Nat.div_div_eq_div_mul]
  calc
    total < price * banks * (total / (price * banks) + 1) := Nat.lt_mul_div_succ total (Nat.mul_pos hprice hbanks)
    _ = price * banks * (total / (price * banks)) + price * banks := Nat.mul_succ _ _

/-- What the node constructs, in numbers without bounds: none of the products wraps. -/
theorem CTokenPool.construct_numbers (hcount : dimensionsCount ≠ 0) {pool : CTokenPool}
    (hpool : CTokenPool.construct random dimensionsCount ownerID transactionID valuePerToken totalValue friendlyID
      seedHash = some pool) :
    pool.mDimensionsCount = dimensionsCount ∧
      pool.mDimensionDepth.toNat = totalValue.toNat / valuePerToken.toNat / dimensionsCount.toNat ∧
      pool.mTotalValue.toNat = valuePerToken.toNat * dimensionsCount.toNat *
        (totalValue.toNat / valuePerToken.toNat / dimensionsCount.toNat) := by
  rw [CTokenPool.construct] at hpool
  split_ifs at hpool
  obtain rfl := Option.some.inj hpool
  have hlt : totalValue.toNat < 2 ^ 256 := totalValue.isLt
  have htokens : totalValue.toNat / valuePerToken.toNat < 2 ^ 256 :=
    Nat.lt_of_le_of_lt (Nat.div_le_self _ _) hlt
  have hdepth : totalValue.toNat / valuePerToken.toNat / dimensionsCount.toNat < 2 ^ 256 :=
    Nat.lt_of_le_of_lt (Nat.div_le_self _ _) htokens
  have htotal : valuePerToken.toNat * dimensionsCount.toNat *
      (totalValue.toNat / valuePerToken.toNat / dimensionsCount.toNat) < 2 ^ 256 :=
    Nat.lt_of_le_of_lt (rounded_le _ _ _) hlt
  refine ⟨rfl, ?_, ?_⟩
  · rw [BitVec.toNat_ofNat, BitVec.toNat_ofNat, Nat.mod_eq_of_lt htokens, Nat.mod_eq_of_lt hdepth]
  · simp only [BitVec.toNat_mul, BitVec.toNat_ofNat, Nat.mod_mul_mod, Nat.mul_mod_mod]
    rw [Nat.mod_eq_of_lt htokens, Nat.mod_eq_of_lt htotal]

theorem toNat_pos_of_ne_zero {count : UInt64} (hcount : count ≠ 0) : 0 < count.toNat :=
  Nat.pos_of_ne_zero fun hzero => hcount (UInt64.toNat_inj.mp hzero)

/-- The price of a token of a pool whose total value is that of its tokens. -/
theorem CTokenPool.getSingleTokenValue_of_total {pool : CTokenPool} {price : BigInt}
    (hcount : pool.mDimensionsCount ≠ 0) (hdepth : 0 < pool.mDimensionDepth.toNat)
    (htotal : pool.mTotalValue.toNat =
      price.toNat * pool.mDimensionsCount.toNat * pool.mDimensionDepth.toNat) :
    pool.getSingleTokenValue = price := by
  have hne : ¬ (pool.mDimensionDepth = 0 ∨ pool.mDimensionsCount = 0) := by
    rintro (hzero | hzero)
    · rw [hzero] at hdepth
      exact lt_irrefl 0 hdepth
    · exact hcount hzero
  have htokens : 0 < pool.mDimensionDepth.toNat * pool.mDimensionsCount.toNat :=
    Nat.mul_pos hdepth (toNat_pos_of_ne_zero hcount)
  have hquotient : pool.mTotalValue.toNat / (pool.mDimensionDepth.toNat * pool.mDimensionsCount.toNat) =
      price.toNat := by
    rw [htotal, mul_assoc, mul_comm pool.mDimensionsCount.toNat]
    exact Nat.mul_div_cancel _ htokens
  rw [CTokenPool.getSingleTokenValue, if_neg hne, hquotient, BitVec.ofNat_toNat, BitVec.setWidth_eq]

/-- The node fixes the price for whatever it is given. -/
theorem CTokenPool.priced_construct (hcount : dimensionsCount ≠ 0) {pool : CTokenPool}
    (hpool : CTokenPool.construct random dimensionsCount ownerID transactionID valuePerToken totalValue friendlyID
      seedHash = some pool) : pool.Priced dimensionsCount valuePerToken totalValue := by
  obtain ⟨hbanks, hdepth, htotal⟩ := CTokenPool.construct_numbers hcount hpool
  have hprice : 0 < valuePerToken.toNat := by
    rw [CTokenPool.construct] at hpool
    split_ifs at hpool with hzero
    exact Nat.pos_of_ne_zero fun hnat => hzero (BitVec.eq_of_toNat_eq hnat)
  rw [← hdepth] at htotal
  refine ⟨hdepth, htotal, ?_, ?_, ?_⟩
  · rw [htotal, hdepth]
    exact rounded_le _ _ _
  · rw [htotal, hdepth]
    exact lt_rounded hprice (toNat_pos_of_ne_zero hcount) _
  · intro hpos
    subst hbanks
    exact CTokenPool.getSingleTokenValue_of_total hcount hpos htotal

/-- The wallet's pool agrees with the node's exactly if the node had nothing to round. -/
theorem samePrices_iff (hcount : dimensionsCount ≠ 0) {pool : CTokenPool} {walletPool : Wallet.CTokenPool}
    (hpool : CTokenPool.construct random dimensionsCount ownerID transactionID valuePerToken totalValue friendlyID
      seedHash = some pool)
    (hwallet : Wallet.CTokenPool.construct walletRandom dimensionsCount.toNat valuePerToken.toNat totalValue.toNat =
      some walletPool) :
    SamePrices pool walletPool ↔ valuePerToken.toNat * dimensionsCount.toNat ∣ totalValue.toNat := by
  obtain ⟨hbanks, hdepth, htotal⟩ := CTokenPool.construct_numbers hcount hpool
  rw [Wallet.CTokenPool.construct] at hwallet
  split_ifs at hwallet
  obtain rfl := Option.some.inj hwallet
  constructor
  · intro hsame
    have hvalue : totalValue.toNat = pool.mTotalValue.toNat := hsame.total
    rw [hvalue, htotal]
    exact Dvd.intro _ rfl
  · intro hdvd
    have hvalue : pool.mTotalValue.toNat = totalValue.toNat := by
      rw [htotal, Nat.div_div_eq_div_mul]
      exact Nat.mul_div_cancel' hdvd
    refine ⟨hdepth.symm, hvalue.symm, ?_⟩
    subst hbanks
    rw [Wallet.CTokenPool.getSingleTokenValue, CTokenPool.getSingleTokenValue]
    dsimp only
    rw [← hdepth, hvalue]
    have hzero : (pool.mDimensionDepth.toNat = 0 ∨ pool.mDimensionsCount.toNat = 0) ↔
        (pool.mDimensionDepth = 0 ∨ pool.mDimensionsCount = 0) := by
      rw [← BitVec.toNat_inj, ← UInt64.toNat_inj]
      rfl
    by_cases hempty : pool.mDimensionDepth = 0 ∨ pool.mDimensionsCount = 0
    · rw [if_pos hempty, if_pos (hzero.mpr hempty)]
      rfl
    · rw [if_neg hempty, if_neg fun hnat => hempty (hzero.mp hnat), BitVec.toNat_ofNat, Nat.mod_eq_of_lt]
      exact Nat.lt_of_le_of_lt (Nat.div_le_self _ _) totalValue.isLt

theorem CTokenPool.exists_construct (random : Bytes32) (dimensionsCount : UInt64) (ownerID transactionID : Bytes)
    {valuePerToken : BigInt} (totalValue : BigInt) (friendlyID seedHash : Bytes) (hprice : valuePerToken ≠ 0) :
    ∃ pool, CTokenPool.construct random dimensionsCount ownerID transactionID valuePerToken totalValue friendlyID
      seedHash = some pool := by
  unfold CTokenPool.construct
  rw [if_neg hprice]
  exact ⟨_, rfl⟩

theorem Wallet.CTokenPool.exists_construct (random : Bytes32) {dimensionsCount : UInt64} {valuePerToken : BigInt}
    (totalValue : ℕ) (hcount : dimensionsCount ≠ 0) (hprice : valuePerToken ≠ 0) :
    ∃ walletPool, Wallet.CTokenPool.construct random dimensionsCount.toNat valuePerToken.toNat totalValue =
      some walletPool := by
  have hnumbers : ¬ (valuePerToken.toNat = 0 ∨ dimensionsCount.toNat = 0) := by
    rintro (hzero | hzero)
    · exact hprice (BitVec.eq_of_toNat_eq hzero)
    · exact hcount (UInt64.toNat_inj.mp hzero)
  unfold Wallet.CTokenPool.construct
  rw [if_neg hnumbers]
  exact ⟨_, rfl⟩

/-- **Both constructors fix the same price exactly if the total value is that of a number of tokens that the banks
can share.** -/
theorem fixesPrice_iff (random walletRandom : Bytes32) (dimensionsCount : UInt64) (ownerID transactionID : Bytes)
    (valuePerToken totalValue : BigInt) (friendlyID seedHash : Bytes) (hcount : dimensionsCount ≠ 0)
    (hprice : valuePerToken ≠ 0) :
    FixesPrice random walletRandom dimensionsCount ownerID transactionID valuePerToken totalValue friendlyID seedHash ↔
      valuePerToken.toNat * dimensionsCount.toNat ∣ totalValue.toNat := by
  constructor
  · rintro ⟨pool, walletPool, hpool, hwallet, -, hsame⟩
    exact (samePrices_iff hcount hpool hwallet).mp hsame
  · intro hdvd
    obtain ⟨pool, hpool⟩ := CTokenPool.exists_construct random dimensionsCount ownerID transactionID totalValue
      friendlyID seedHash hprice
    obtain ⟨walletPool, hwallet⟩ := Wallet.CTokenPool.exists_construct walletRandom totalValue.toNat hcount hprice
    exact ⟨pool, walletPool, hpool, hwallet, CTokenPool.priced_construct hcount hpool,
      (samePrices_iff hcount hpool hwallet).mpr hdvd⟩

end Pricing

/-- Three units in tokens of one. -/
theorem fixesPrice_iff_three :
    FixesPrice ⟨List.replicate 32 0, rfl⟩ ⟨List.replicate 32 0, rfl⟩ 3 [] [] 1 3 [] [] ↔
      (1 : BigInt).toNat * (3 : UInt64).toNat ∣ (3 : BigInt).toNat :=
  fixesPrice_iff _ _ 3 [] [] 1 3 [] [] (by decide) (by decide)

/-- Three units in tokens of two: the node rounds down to two, and the wallet does not. -/
theorem total_not_rounded :
    ¬ ∀ (random walletRandom : Bytes32) (dimensionsCount : UInt64) (ownerID transactionID : Bytes)
      (valuePerToken totalValue : BigInt) (friendlyID seedHash : Bytes), dimensionsCount ≠ 0 → valuePerToken ≠ 0 →
        FixesPrice random walletRandom dimensionsCount ownerID transactionID valuePerToken totalValue friendlyID
          seedHash := by
  intro hfixes
  let bytes : Bytes32 := ⟨List.replicate 32 0, rfl⟩
  have hdvd := (fixesPrice_iff bytes bytes 1 [] [] 2 3 [] [] (by decide) (by decide)).mp
    (hfixes bytes bytes 1 [] [] 2 3 [] [] (by decide) (by decide))
  exact absurd hdvd (by decide)

end Gridnet
