import Gridnet.PoolVerify
import Gridnet.Machine
import Gridnet.ListUpdate
import Mathlib.Algebra.Order.BigOperators.Group.List
import Mathlib.Algebra.Group.Action.Defs
import Mathlib.Tactic.Ring

/-! What a pool pays out over a whole run of tokens. A token is paid by the depth it adds to its
bank, so as long as no accepted token runs past the last token of a bank, the run is paid out of the
depth of the pool: the payments are the growth of a potential. `validateTT` compares the declared
value of a token with what is left but never its depth with the depth of the pool; the secret each
bank seed was hashed from pays for one token too many. -/

namespace Gridnet

/-- A recipient taking in tokens, `validateTT` with `updateState` set. -/
def CTokenPool.receive (cf : CCryptoFactory) (pool : CTokenPool) (token : CTransmissionToken) :
    TTAnswer × CTokenPool :=
  pool.validateTT cf token true

/-- A token that passes every check although its depth lies beyond the last token of the bank. -/
def CTokenPool.Overruns (cf : CCryptoFactory) (pool : CTokenPool) (token : CTransmissionToken) :
    Prop :=
  ∃ bank, pool.Accepts cf token bank ∧ pool.mDimensionDepth < token.mBankUsageDepth

/-- What a token was paid if it names the bank `id`. -/
def paidFor (id : UInt64) (token : CTransmissionToken) (answer : TTAnswer) : ℕ :=
  if token.mBankIndex = id then answer.worthValue.toNat else 0

/-- What a token was paid. -/
def paid (_ : CTransmissionToken) (answer : TTAnswer) : ℕ := answer.worthValue.toNat

/-- A run of tokens that takes no more out of a pool than there is in it. -/
structure CTokenPool.SpendsWithin (cf : CCryptoFactory) (pool : CTokenPool)
    (tokens : List CTransmissionToken) : Prop where
  bank_le : ∀ id, Machine.total (CTokenPool.receive cf) (paidFor id) pool tokens ≤
    pool.mDimensionDepth.toNat * pool.getSingleTokenValue.toNat
  total_le : Machine.total (CTokenPool.receive cf) paid pool tokens ≤ pool.mTotalValue.toNat
  call_le : Machine.EveryStep (CTokenPool.receive cf) (fun pool token =>
    (pool.receive cf token).1.worthValue ≤ pool.getValueLeftInBank token.mBankIndex) pool tokens
  depth_le : Machine.EveryStep (CTokenPool.receive cf) (fun pool token =>
    ∀ bank ∈ (pool.receive cf token).2.mBanks, bank.mCurrentDepth ≤ pool.mDimensionDepth)
    pool tokens

/-! ### One token -/

namespace CTokenPool

variable {cf : CCryptoFactory} {pool : CTokenPool} {token : CTransmissionToken}

theorem receive_cases (cf : CCryptoFactory) (pool : CTokenPool) (token : CTransmissionToken) :
    (∃ bank, pool.Accepts cf token bank ∧ pool.receive cf token =
      (⟨pool.getSingleTokenValue * (token.mBankUsageDepth - bank.mCurrentDepth), true⟩,
        pool.moveTo token.mBankIndex.toNat token.mBankUsageDepth token.mRevealedHash)) ∨
    ((∀ bank, ¬pool.Accepts cf token bank) ∧
      ∃ isValid, pool.receive cf token = (⟨0, isValid⟩, pool)) := by
  by_cases h : ∃ bank, pool.Accepts cf token bank
  · obtain ⟨bank, hbank⟩ := h
    exact Or.inl ⟨bank, hbank, hbank.validateTT_eq true⟩
  · rw [not_exists] at h
    exact Or.inr ⟨h, validateTT_of_not_accepts h true⟩

/-- The depth of the bank `id`, zero where there is none. -/
def depthOf (pool : CTokenPool) (id : UInt64) : ℕ :=
  ((pool.getBankById id).map fun bank => bank.mCurrentDepth.toNat).getD 0

/-- The depth of all banks together. -/
def depthUsed (pool : CTokenPool) : ℕ :=
  (pool.mBanks.map fun bank => bank.mCurrentDepth.toNat).sum

/-- A pool of the size of `origin`, with no bank deeper than its last token. -/
structure Within (origin pool : CTokenPool) : Prop where
  depth_eq : pool.mDimensionDepth = origin.mDimensionDepth
  value_eq : pool.getSingleTokenValue = origin.getSingleTokenValue
  length_eq : pool.mBanks.length = origin.mDimensionsCount.toNat
  depth_le : ∀ bank ∈ pool.mBanks, bank.mCurrentDepth ≤ pool.mDimensionDepth

theorem Accepts.mem {bank : CTokenPoolBank} (h : pool.Accepts cf token bank) : bank ∈ pool.mBanks :=
  List.mem_of_getElem? h.bank_eq

theorem Within.moveTo {origin : CTokenPool} (hwithin : origin.Within pool) {id : ℕ}
    {depth : BigInt} {hash : Bytes} (hdepth : depth ≤ pool.mDimensionDepth) :
    origin.Within (pool.moveTo id depth hash) where
  depth_eq := hwithin.depth_eq
  value_eq := hwithin.value_eq
  length_eq := by rw [moveTo_mBanks, List.length_modify, hwithin.length_eq]
  depth_le := by
    rw [moveTo_mBanks, moveTo_mDimensionDepth]
    exact ListUpdate.forall_mem_modify (fun _ _ _ => hdepth) hwithin.depth_le

/-- The depth an accepted token adds to its bank is added to the sum of all depths. -/
theorem Accepts.depthUsed_moveTo {bank : CTokenPoolBank} (h : pool.Accepts cf token bank) :
    (pool.moveTo token.mBankIndex.toNat token.mBankUsageDepth token.mRevealedHash).depthUsed =
      pool.depthUsed + (token.mBankUsageDepth.toNat - bank.mCurrentDepth.toNat) := by
  rw [depthUsed, moveTo_mBanks]
  refine ListUpdate.sum_map_modify _ h.bank_eq ?_
  exact (Nat.add_sub_cancel' (BitVec.le_def.mp h.depth_le)).symm

theorem Accepts.depthOf_moveTo {bank : CTokenPoolBank} (h : pool.Accepts cf token bank)
    (id : UInt64) :
    (pool.moveTo token.mBankIndex.toNat token.mBankUsageDepth token.mRevealedHash).depthOf id =
      pool.depthOf id + if token.mBankIndex = id then token.mBankUsageDepth.toNat - bank.mCurrentDepth.toNat else 0 := by
  rw [depthOf, getBankById, moveTo_mBanks, List.getElem?_modify]
  by_cases hid : token.mBankIndex = id
  · subst hid
    have hbank : pool.mBanks[token.mBankIndex.toNat]? = some bank := h.bank_eq
    simp only [hbank, depthOf, h.bank_eq, CTokenPoolBank.movedTo, Option.map_eq_map, if_true,
      Option.map_some, Option.getD_some]
    exact (Nat.add_sub_cancel' (BitVec.le_def.mp h.depth_le)).symm
  · have hne : token.mBankIndex.toNat ≠ id.toNat := fun heq => hid (UInt64.toNat_inj.mp heq)
    simp [hid, hne, depthOf, getBankById]

/-- The payment of an accepted token that stays within its bank. -/
theorem Accepts.worth {bank : CTokenPoolBank} (h : pool.Accepts cf token bank)
    (hdepth : token.mBankUsageDepth ≤ pool.mDimensionDepth) :
    (pool.receive cf token).1.worthValue.toNat = pool.getSingleTokenValue.toNat *
      (token.mBankUsageDepth.toNat - bank.mCurrentDepth.toNat) := by
  rw [receive, h.validateTT_eq]
  exact pool.worth_toNat h.depth_le hdepth

variable {origin : CTokenPool}

/-- The bound an accepted token keeps to when it does not overrun. -/
theorem Accepts.depth_le_of_not_overruns {bank : CTokenPoolBank} (h : pool.Accepts cf token bank)
    (hover : ¬pool.Overruns cf token) : token.mBankUsageDepth ≤ pool.mDimensionDepth :=
  BitVec.not_lt.mp fun hlt => hover ⟨bank, h, hlt⟩

theorem Within.receive (hwithin : origin.Within pool) (hover : ¬pool.Overruns cf token) :
    origin.Within (pool.receive cf token).2 := by
  rcases receive_cases cf pool token with ⟨bank, hbank, heq⟩ | ⟨_, isValid, heq⟩
  · rw [heq]
    exact hwithin.moveTo (hbank.depth_le_of_not_overruns hover)
  · rw [heq]
    exact hwithin

/-- A token is paid out of the depth it adds to all banks. -/
theorem Within.depthUsed_receive (hwithin : origin.Within pool) (hover : ¬pool.Overruns cf token) :
    origin.getSingleTokenValue.toNat * (pool.receive cf token).2.depthUsed =
      origin.getSingleTokenValue.toNat * pool.depthUsed +
        paid token (pool.receive cf token).1 := by
  rw [← hwithin.value_eq]
  rcases receive_cases cf pool token with ⟨bank, hbank, heq⟩ | ⟨_, isValid, heq⟩
  · rw [paid, hbank.worth (hbank.depth_le_of_not_overruns hover), heq, hbank.depthUsed_moveTo,
      Nat.mul_add]
  · rw [paid, heq]
    rfl

/-- A token that names a bank is paid out of the depth it adds to that bank. -/
theorem Within.depthOf_receive (hwithin : origin.Within pool) (hover : ¬pool.Overruns cf token)
    (id : UInt64) :
    origin.getSingleTokenValue.toNat * (pool.receive cf token).2.depthOf id =
      origin.getSingleTokenValue.toNat * pool.depthOf id +
        paidFor id token (pool.receive cf token).1 := by
  rw [← hwithin.value_eq]
  rcases receive_cases cf pool token with ⟨bank, hbank, heq⟩ | ⟨_, isValid, heq⟩
  · rw [paidFor, hbank.worth (hbank.depth_le_of_not_overruns hover), heq, hbank.depthOf_moveTo,
      Nat.mul_add, mul_ite, Nat.mul_zero]
  · simp [paidFor, heq]

/-- The payment of one call never exceeds what was left in the bank. -/
theorem Within.worth_le_left (hwithin : origin.Within pool) (hover : ¬pool.Overruns cf token) :
    (pool.receive cf token).1.worthValue ≤ pool.getValueLeftInBank token.mBankIndex := by
  rcases receive_cases cf pool token with ⟨bank, hbank, heq⟩ | ⟨_, isValid, heq⟩
  · have hdepth := hbank.depth_le_of_not_overruns hover
    rw [BitVec.le_def, hbank.worth hdepth, getValueLeftInBank, hbank.bank_eq]
    dsimp only
    rw [CTokenPoolBank.getValueLeft_toNat hbank.bank_active (hwithin.depth_le bank hbank.mem)]
    exact Nat.mul_le_mul_left _ (Nat.sub_le_sub_right (BitVec.le_def.mp hdepth) _)
  · rw [heq]
    exact Nat.zero_le _

/-! ### Whole runs -/

theorem Within.depthOf_le (hwithin : origin.Within pool) (id : UInt64) :
    pool.depthOf id ≤ origin.mDimensionDepth.toNat := by
  rw [depthOf]
  cases hbank : pool.getBankById id with
  | none => exact Nat.zero_le _
  | some bank =>
      rw [← hwithin.depth_eq]
      exact BitVec.le_def.mp (hwithin.depth_le bank (List.mem_of_getElem? hbank))

theorem Within.depthUsed_le (hwithin : origin.Within pool) :
    pool.depthUsed ≤ origin.mDimensionsCount.toNat * origin.mDimensionDepth.toNat := by
  rw [depthUsed, ← hwithin.length_eq, ← hwithin.depth_eq, ← smul_eq_mul,
    ← List.length_map fun bank : CTokenPoolBank => bank.mCurrentDepth.toNat]
  refine List.sum_le_card_nsmul _ _ fun d hd => ?_
  obtain ⟨bank, hbank, rfl⟩ := List.mem_map.mp hd
  exact BitVec.le_def.mp (hwithin.depth_le bank hbank)

/-- A generated pool starts within its own size, with nothing of its banks used. -/
theorem generateDimensions_within {verify : Bool} {random : Bytes32}
    (h : pool.generateDimensions cf verify random = some origin) : origin.Within origin where
  depth_eq := rfl
  value_eq := rfl
  length_eq := by
    rw [generateDimensions_eq pool cf verify h, List.length_map, List.length_range]
  depth_le := by
    rw [generateDimensions_eq pool cf verify h]
    intro bank hbank
    obtain ⟨k, _, rfl⟩ := List.mem_map.mp hbank
    exact Nat.zero_le _

theorem depthUsed_of_fresh (hfresh : ∀ bank ∈ pool.mBanks, bank.mCurrentDepth = 0) :
    pool.depthUsed = 0 := by
  rw [depthUsed, List.sum_eq_zero_iff]
  intro d hd
  obtain ⟨bank, hbank, rfl⟩ := List.mem_map.mp hd
  rw [hfresh bank hbank]
  rfl

theorem depthOf_of_fresh (hfresh : ∀ bank ∈ pool.mBanks, bank.mCurrentDepth = 0) (id : UInt64) :
    pool.depthOf id = 0 := by
  rw [depthOf]
  cases hbank : pool.getBankById id with
  | none => rfl
  | some bank =>
      rw [Option.map_some, hfresh bank (List.mem_of_getElem? hbank)]
      rfl

/-- An overrun leaves a bank deeper than its last token. -/
theorem Overruns.depth_gt (h : pool.Overruns cf token) :
    ∃ bank ∈ (pool.receive cf token).2.mBanks, pool.mDimensionDepth < bank.mCurrentDepth := by
  obtain ⟨bank, hbank, hdepth⟩ := h
  refine ⟨bank.movedTo pool.mDimensionDepth token.mBankUsageDepth token.mRevealedHash, ?_, hdepth⟩
  have hentry : pool.mBanks[token.mBankIndex.toNat]? = some bank := hbank.bank_eq
  rw [receive, hbank.validateTT_eq, if_pos rfl, moveTo_mBanks]
  refine List.mem_of_getElem? (i := token.mBankIndex.toNat) ?_
  rw [List.getElem?_modify_eq, hentry]
  rfl

variable {tokens : List CTransmissionToken}

/-- A run without overruns keeps every bank within its size, and pays what the banks lost. -/
theorem spendsWithin_of_not_overruns (hstart : origin.Within origin)
    (hfresh : ∀ bank ∈ origin.mBanks, bank.mCurrentDepth = 0)
    (hrun : Machine.EveryStep (receive cf) (fun pool token => ¬pool.Overruns cf token)
      origin tokens) :
    origin.SpendsWithin cf tokens := by
  have hkeep : ∀ pool token, origin.Within pool → ¬pool.Overruns cf token →
      ((pool.receive cf token).1.worthValue ≤ pool.getValueLeftInBank token.mBankIndex ∧
        ∀ bank ∈ (pool.receive cf token).2.mBanks, bank.mCurrentDepth ≤ pool.mDimensionDepth) ∧
      origin.Within (pool.receive cf token).2 := by
    intro pool token hwithin hover
    have hnext := hwithin.receive hover
    refine ⟨⟨hwithin.worth_le_left hover, fun bank hbank => ?_⟩, hnext⟩
    rw [hwithin.depth_eq, ← hnext.depth_eq]
    exact hnext.depth_le bank hbank
  obtain ⟨hcalls, hend⟩ := Machine.everyStep_of_invariant hkeep hstart hrun
  refine ⟨fun id => ?_, ?_, hcalls.mono fun _ _ h => h.1, hcalls.mono fun _ _ h => h.2⟩
  · have hledger := Machine.potential_final (paidFor id)
      (fun pool => origin.getSingleTokenValue.toNat * pool.depthOf id)
      (fun _ _ hwithin hover => ⟨hwithin.depthOf_receive hover id, hwithin.receive hover⟩)
      hstart hrun
    rw [depthOf_of_fresh hfresh, Nat.mul_zero, Nat.zero_add] at hledger
    rw [← hledger, Nat.mul_comm]
    exact Nat.mul_le_mul_right _ (hend.depthOf_le id)
  · have hledger := Machine.potential_final paid
      (fun pool => origin.getSingleTokenValue.toNat * pool.depthUsed)
      (fun _ _ hwithin hover => ⟨hwithin.depthUsed_receive hover, hwithin.receive hover⟩)
      hstart hrun
    rw [depthUsed_of_fresh hfresh, Nat.mul_zero, Nat.zero_add] at hledger
    calc Machine.total (receive cf) paid origin tokens
        = origin.getSingleTokenValue.toNat * (Machine.final (receive cf) origin tokens).depthUsed :=
          hledger.symm
      _ ≤ origin.getSingleTokenValue.toNat *
          (origin.mDimensionsCount.toNat * origin.mDimensionDepth.toNat) :=
          Nat.mul_le_mul_left _ hend.depthUsed_le
      _ = origin.mDimensionsCount.toNat *
          (origin.mDimensionDepth.toNat * origin.getSingleTokenValue.toNat) := by ring
      _ ≤ origin.mTotalValue.toNat := origin.all_banks_le_total

/-- **A run of tokens overspends a generated pool exactly if one of them overruns its bank.** -/
theorem spendsWithin_iff {generated : CTokenPool} {verify : Bool} {random : Bytes32}
    (hgen : pool.generateDimensions cf verify random = some generated)
    (tokens : List CTransmissionToken) :
    generated.SpendsWithin cf tokens ↔
      Machine.EveryStep (receive cf) (fun pool token => ¬pool.Overruns cf token)
        generated tokens := by
  constructor
  · intro hspends
    refine hspends.depth_le.mono fun pool token hdepth hover => ?_
    obtain ⟨bank, hbank, hlt⟩ := hover.depth_gt
    exact BitVec.not_le.mpr hlt (hdepth bank hbank)
  · refine spendsWithin_of_not_overruns (generateDimensions_within hgen) ?_
    rw [generateDimensions_eq pool cf verify hgen]
    intro bank hbank
    obtain ⟨k, _, rfl⟩ := List.mem_map.mp hbank
    rfl

end CTokenPool

/-! ### A token too many -/

/-- The secret the bank seed was hashed from, revealed as a token at depth two. -/
def secondToken : CTransmissionToken :=
  { mBankIndex := 0, mValue := 1, mRevealedHash := (countingBytes 1).val
    mRevealedHashesCount := 1, mBankUsageDepth := 2 }

theorem spendsWithin_iff_oneToken :
    oneTokenGenerated.SpendsWithin countingHash [secondToken] ↔
      Machine.EveryStep (CTokenPool.receive countingHash)
        (fun pool token => ¬pool.Overruns countingHash token) oneTokenGenerated [secondToken] :=
  CTokenPool.spendsWithin_iff oneTokenPool_generated [secondToken]

/-- The one token of the pool is paid twice. -/
theorem spendsWithin_fails :
    oneTokenPool.generateDimensions countingHash true (countingBytes 0) = some oneTokenGenerated ∧
      ¬oneTokenGenerated.SpendsWithin countingHash [secondToken] := by
  refine ⟨oneTokenPool_generated, fun hspends => ?_⟩
  have hpaid : Machine.total (CTokenPool.receive countingHash) paid oneTokenGenerated
      [secondToken] = 2 := by decide
  have hle := hspends.total_le
  rw [hpaid] at hle
  exact absurd hle (by decide)

end Gridnet
