import Gridnet.WalletModel
import Gridnet.PoolVerify

/-! Tokens the wallet generates. `genTTWorthValue` reads the depth of the bank after
`genTokenWorthValue` has used its tokens up: with `markUsed` set the hashes are counted twice. From a
bank that still has the depth of its constructor there is no token at all. -/

namespace Gridnet.Wallet

namespace CTokenPool

variable {cf : CCryptoFactory} {pool : CTokenPool} {id : ℕ} {bank : CTokenPoolBank} {value : ℕ}

/-- Marking as depleted leaves the depth of every bank as it is. -/
theorem setBankStatus_depth (j : ℕ) (status : eTokenPoolBankStatus) :
    ((pool.setBankStatus id status).mBanks[j]?).map CTokenPoolBank.mCurrentDepth =
      (pool.mBanks[j]?).map CTokenPoolBank.mCurrentDepth := by
  have hbanks : (pool.setBankStatus id status).mBanks =
      pool.mBanks.modify id fun bank => { bank with mStatus := status } := by
    unfold setBankStatus notifyBankStatusChanged
    cases status with
    | active => rfl
    | depleted =>
        dsimp only
        split <;> rfl
  rw [hbanks, List.getElem?_modify]
  cases pool.mBanks[j]? with
  | none => rfl
  | some other =>
      by_cases hj : id = j
      · simp [hj]
      · simp [hj]

theorem markUsed_depth {depth : ℕ} {hash : Bytes} (hbank : pool.mBanks[id]? = some bank) :
    ((pool.markUsed id bank depth hash).mBanks[id]?).map CTokenPoolBank.mCurrentDepth =
      some depth := by
  have hmoved : ((pool.modifyBank id fun _ =>
        { bank with
          mCurrentDepth := depth, numberDepth := false, mCurrentFinalHash := hash }).mBanks[id]?).map
        CTokenPoolBank.mCurrentDepth = some depth := by
    rw [modifyBank, List.getElem?_modify_eq, hbank]
    rfl
  unfold markUsed
  dsimp only
  split_ifs
  · rw [setBankStatus_depth, hmoved]
  · exact hmoved

/-- A hash below the current depth is delivered with the bank moved there, if it is marked used. -/
theorem getHashAtDepth_depth {depth : ℕ} {hash : Bytes} {updateState : Bool}
    (hbank : pool.mBanks[id]? = some bank) (hdeeper : bank.mCurrentDepth < depth)
    (h : (pool.getHashAtDepth cf id bank depth updateState).1 = some hash) :
    ((pool.getHashAtDepth cf id bank depth updateState).2.mBanks[id]?).map
        CTokenPoolBank.mCurrentDepth =
      some (if updateState then depth else bank.mCurrentDepth) := by
  unfold getHashAtDepth at h ⊢
  rw [if_neg (Nat.ne_zero_of_lt hdeeper)] at h ⊢
  by_cases hscope : pool.mDimensionDepth < depth
  · rw [if_pos hscope] at h
    cases h
  · rw [if_neg hscope] at h ⊢
    cases hstart : bank.walkStart pool depth with
    | none =>
        rw [hstart] at h
        cases h
    | some start =>
        cases updateState with
        | false => simp [hbank]
        | true =>
            dsimp only
            rw [if_pos ⟨rfl, hdeeper⟩, markUsed_depth hbank]
            rfl

theorem genTokenWorthValue_depth {rawToken : Bytes × ℕ} {markUsed : Bool}
    (hbank : pool.mBanks[id]? = some bank)
    (h : (pool.genTokenWorthValue cf id bank value markUsed).1 = .ok (some rawToken)) :
    0 < rawToken.2 ∧
    ((pool.genTokenWorthValue cf id bank value markUsed).2.mBanks[id]?).map
        CTokenPoolBank.mCurrentDepth =
      some (bank.mCurrentDepth + if markUsed then rawToken.2 else 0) := by
  unfold genTokenWorthValue at h ⊢
  by_cases hvalue : value = 0 ∨ bank.getValueLeft pool < value
  · rw [if_pos hvalue] at h
    cases h
  by_cases hworth : pool.getSingleTokenValue = 0
  · rw [if_neg hvalue, if_pos hworth] at h
    cases h
  by_cases hnumber : bank.numberDepth = true
  · rw [if_neg hvalue, if_neg hworth, if_pos hnumber] at h
    cases h
  rw [if_neg hvalue, if_neg hworth, if_neg hnumber] at h ⊢
  obtain ⟨hash, hhash, rfl⟩ := Option.map_eq_some_iff.mp (Except.ok.inj h)
  refine ⟨Nat.add_pos_left Nat.one_pos _, ?_⟩
  have hdeeper : bank.mCurrentDepth <
      bank.mCurrentDepth + (1 + (value - 1) / pool.getSingleTokenValue) :=
    Nat.lt_add_of_pos_right (Nat.add_pos_left Nat.one_pos _)
  have hdepth := getHashAtDepth_depth hbank hdeeper hhash
  dsimp only
  rw [hdepth]
  cases markUsed <;> rfl

/-- The depth a generated token declares: with `markUsed` its hashes are counted twice. -/
theorem genTTWorthValue_depth {token : CTransmissionToken} {markUsed : Bool}
    (hbank : pool.mBanks[id]? = some bank)
    (h : (pool.genTTWorthValue cf id bank value markUsed).1 = .ok (some token)) :
    0 < token.mRevealedHashesCount ∧
    token.mBankUsageDepth = bank.mCurrentDepth + (if markUsed then token.mRevealedHashesCount else 0) +
      token.mRevealedHashesCount := by
  unfold genTTWorthValue at h
  dsimp only at h
  cases hraw : (pool.genTokenWorthValue cf id bank value markUsed).1 with
  | error error =>
      rw [hraw] at h
      cases h
  | ok raw =>
      rw [hraw] at h
      cases raw with
      | none => cases h
      | some rawToken =>
          dsimp only at h
          split_ifs at h with hlength
          · cases h
          · obtain rfl := Option.some.inj (Except.ok.inj h)
            obtain ⟨hcount, hdepth⟩ := genTokenWorthValue_depth hbank hraw
            refine ⟨hcount, ?_⟩
            obtain ⟨after, hafter, hcurrent⟩ := Option.map_eq_some_iff.mp hdepth
            rw [hafter, ← hcurrent]
            rfl

end CTokenPool

/-- What both ends expect of a generated token: the wallet hands out a token for the value, marked
as used, whose depth is the depth of the hash it reveals, and the node pays it for that hash. -/
def TokenAgrees (cf : CCryptoFactory) (wallet : CTokenPool) (node : Gridnet.CTokenPool) (id : ℕ)
    (bank : CTokenPoolBank) (value : ℕ) : Prop :=
  ∃ token, (wallet.genTTWorthValue cf id bank value true).1 = .ok (some token) ∧
    token.mBankUsageDepth = bank.mCurrentDepth + token.mRevealedHashesCount ∧
    (node.validateTT cf token.toNode true).1 =
      ⟨node.getSingleTokenValue * .ofNat 256 token.mRevealedHashesCount, true⟩

/-- **No token the wallet marks as used declares the depth of the hash it reveals.** -/
theorem not_tokenAgrees (cf : CCryptoFactory) (node : Gridnet.CTokenPool) {wallet : CTokenPool}
    {id : ℕ} {bank : CTokenPoolBank} (hbank : wallet.mBanks[id]? = some bank) (value : ℕ) :
    ¬TokenAgrees cf wallet node id bank value := by
  rintro ⟨token, htoken, hdepth, -⟩
  obtain ⟨hcount, htwice⟩ := CTokenPool.genTTWorthValue_depth hbank htoken
  rw [if_pos rfl] at htwice
  omega

/-! ### The first token of a pool -/

/-- The bank of `oneTokenGenerated` as the wallet has it, generated (`numberDepth`) or read from a stored
pool whose seeds were derived again. -/
def oneTokenBank (numberDepth : Bool) : CTokenPoolBank :=
  { mID := 0, mFinalHash := (countingBytes 3).val, mSeedHash := (countingBytes 2).val
    numberDepth := numberDepth }

def oneTokenWallet (numberDepth : Bool) : CTokenPool :=
  { mBanks := [oneTokenBank numberDepth], mDimensionsCount := 1, mDimensionDepth := 1, mTotalValue := 1 }

theorem not_tokenAgrees_oneToken :
    ¬TokenAgrees countingHash (oneTokenWallet false) oneTokenGenerated 0 (oneTokenBank false) 1 :=
  not_tokenAgrees countingHash oneTokenGenerated rfl 1

/-- The token for the whole pool declares depth two, and the node refuses it; of the pool as it was generated
the call for this token throws. -/
theorem tokenAgrees_fails :
    (oneTokenBank false).getValueLeft (oneTokenWallet false) = 1 ∧
    (∃ token,
      ((oneTokenWallet false).genTTWorthValue countingHash 0 (oneTokenBank false) 1 true).1 =
        .ok (some token) ∧ token.mRevealedHashesCount = 1 ∧ token.mBankUsageDepth = 2 ∧
      (oneTokenGenerated.validateTT countingHash token.toNode true).1 = ⟨0, false⟩) ∧
    (oneTokenBank true).getValueLeft (oneTokenWallet true) = 1 ∧
    ((oneTokenWallet true).genTTWorthValue countingHash 0 (oneTokenBank true) 1 true).1 =
      .error .typeError ∧
    ¬TokenAgrees countingHash (oneTokenWallet false) oneTokenGenerated 0 (oneTokenBank false) 1 ∧
    ¬TokenAgrees countingHash (oneTokenWallet true) oneTokenGenerated 0 (oneTokenBank true) 1 := by
  refine ⟨by decide, ⟨_, rfl, by decide, by decide, by decide⟩, by decide, rfl, ?_, ?_⟩
  · rintro ⟨token, htoken, hdepth, -⟩
    obtain rfl := Option.some.inj (Except.ok.inj htoken)
    exact absurd hdepth (by decide)
  · rintro ⟨token, htoken, -, -⟩
    cases htoken

end Gridnet.Wallet
