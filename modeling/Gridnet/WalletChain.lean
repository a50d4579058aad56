import Gridnet.WalletTokens
import Gridnet.Machine

/-! The hash chains behind the banks of both sides. The node walks a revealed hash up by the depth a
token adds to its bank, so its ceilings stay on their chains. The wallet walks it up by the number
of hashes the token says it reveals and stores the depth the token says it is at; its ceilings stay
on their chains as long as the tokens it accepts say the same with both numbers, and then the two
sides give the same answers. -/

namespace Gridnet

/-- A bank nothing of whose chain is revealed yet. -/
structure CTokenPoolBank.Fresh (bank : CTokenPoolBank) : Prop where
  depth_eq : bank.mCurrentDepth = 0
  current_eq : bank.mCurrentFinalHash = []
  preCached_eq : bank.mPreCachedSeedHash = []

/-- The ceiling of a bank and its pre-cached hash, where it is set, lead to its final hash. -/
structure CTokenPoolBank.OnChain (cf : CCryptoFactory) (bank : CTokenPoolBank) : Prop where
  ceiling : cf.getSHA2_256Vec^[bank.mCurrentDepth.toNat] (bank.getFinalHash true) = bank.mFinalHash
  preCached : bank.mPreCachedSeedHash ≠ [] →
    cf.getSHA2_256Vec^[bank.mPreCachedSeedHashDepth.toNat] bank.mPreCachedSeedHash = bank.mFinalHash

theorem CTokenPoolBank.Fresh.onChain {cf : CCryptoFactory} {bank : CTokenPoolBank}
    (hfresh : bank.Fresh) : bank.OnChain cf where
  ceiling := by
    rw [hfresh.depth_eq, CTokenPoolBank.getFinalHash, hfresh.current_eq]
    rfl
  preCached := fun hset => absurd hfresh.preCached_eq hset

namespace Wallet

structure CTokenPoolBank.Fresh (bank : CTokenPoolBank) : Prop where
  depth_eq : bank.mCurrentDepth = 0
  current_eq : bank.mCurrentFinalHash = []
  preCached_eq : bank.mPreCachedSeedHash = []

structure CTokenPoolBank.OnChain (cf : CCryptoFactory) (bank : CTokenPoolBank) : Prop where
  ceiling : cf.getSHA2_256Vec^[bank.mCurrentDepth] (bank.getFinalHash true) = bank.mFinalHash
  preCached : bank.mPreCachedSeedHash ≠ [] →
    cf.getSHA2_256Vec^[bank.mPreCachedSeedHashDepth] bank.mPreCachedSeedHash = bank.mFinalHash

theorem CTokenPoolBank.Fresh.onChain {cf : CCryptoFactory} {bank : CTokenPoolBank}
    (hfresh : bank.Fresh) : bank.OnChain cf where
  ceiling := by
    rw [hfresh.depth_eq, CTokenPoolBank.getFinalHash, hfresh.current_eq]
    rfl
  preCached := fun hset => absurd hfresh.preCached_eq hset

/-! ### One token at the wallet -/

/-- A token that passes every check of the wallet's `validateTT` on a bank. -/
structure CTokenPool.Accepts (pool : CTokenPool) (cf : CCryptoFactory)
    (token : CTransmissionToken) (bank : CTokenPoolBank) : Prop where
  pool_active : pool.mStatus = .active
  signed : ¬(pool.mPubKey.length = 32 ∧ token.mSig.length > 0 ∧
    cf.verifySignature token.mSig (token.getPackedData false) pool.mPubKey = false)
  count_ne_zero : token.mRevealedHashesCount ≠ 0
  value_le_total : token.mValue ≤ pool.getTotalValue
  bank_eq : pool.getBankById token.mBankIndex = some bank
  bank_active : bank.mStatus ≠ .depleted
  value_le_left : (token.mValue : ℤ) ≤ bank.getValueLeft pool
  deeper : bank.mCurrentDepth < token.mBankUsageDepth
  revealed_length : token.mRevealedHash.length = 32
  ceiling_length : (bank.getFinalHash true).length = 32
  reaches_ceiling :
    cf.getSHA2_256Vec^[token.mRevealedHashesCount] token.mRevealedHash = bank.getFinalHash true

namespace CTokenPool

variable {cf : CCryptoFactory} {pool : CTokenPool} {token : CTransmissionToken}
  {bank : CTokenPoolBank}

theorem Accepts.validateTT_eq (h : pool.Accepts cf token bank) (updateState isBankUpdate : Bool) :
    pool.validateTT cf token updateState isBankUpdate =
      (some (pool.getSingleTokenValue * token.mRevealedHashesCount),
        if updateState then pool.record token bank isBankUpdate else pool) := by
  have hlengths : ¬(token.mRevealedHash.length ≠ 32 ∨ (bank.getFinalHash true).length ≠ 32) := by
    simp [h.revealed_length, h.ceiling_length]
  simp only [validateTT, h.bank_eq]
  rw [if_neg (not_not_intro h.pool_active), if_neg h.signed, if_neg h.count_ne_zero,
    if_neg (Nat.not_lt.mpr h.value_le_total), if_neg h.bank_active,
    if_neg (Int.not_lt.mpr h.value_le_left), if_neg (Nat.not_le.mpr h.deeper),
    if_neg hlengths, if_neg (not_not_intro h.reaches_ceiling)]

theorem validateTT_of_not_accepts (h : ∀ bank, ¬pool.Accepts cf token bank)
    (updateState isBankUpdate : Bool) :
    ∃ value : Option ℕ, value.getD 0 = 0 ∧
      pool.validateTT cf token updateState isBankUpdate = (value, pool) := by
  unfold validateTT
  by_cases hstatus : pool.mStatus ≠ .active
  · exact ⟨some 0, rfl, if_pos hstatus⟩
  rw [if_neg hstatus]
  by_cases hsig : pool.mPubKey.length = 32 ∧ token.mSig.length > 0 ∧
      cf.verifySignature token.mSig (token.getPackedData false) pool.mPubKey = false
  · exact ⟨none, rfl, if_pos hsig⟩
  rw [if_neg hsig]
  by_cases hcount : token.mRevealedHashesCount = 0
  · exact ⟨some 0, rfl, if_pos hcount⟩
  rw [if_neg hcount]
  by_cases htotal : pool.getTotalValue < token.mValue
  · exact ⟨some 0, rfl, if_pos htotal⟩
  rw [if_neg htotal]
  cases hbank : pool.getBankById token.mBankIndex with
  | none => exact ⟨some 0, rfl, rfl⟩
  | some bank =>
      dsimp only
      by_cases hdepleted : bank.mStatus = .depleted
      · exact ⟨some 0, rfl, if_pos hdepleted⟩
      rw [if_neg hdepleted]
      by_cases hleft : bank.getValueLeft pool < token.mValue
      · exact ⟨some 0, rfl, if_pos hleft⟩
      rw [if_neg hleft]
      by_cases hdepth : token.mBankUsageDepth ≤ bank.mCurrentDepth
      · exact ⟨some 0, rfl, if_pos hdepth⟩
      rw [if_neg hdepth]
      by_cases hlength : token.mRevealedHash.length ≠ 32 ∨ (bank.getFinalHash true).length ≠ 32
      · exact ⟨some 0, rfl, if_pos hlength⟩
      rw [if_neg hlength]
      by_cases hwalk : cf.getSHA2_256Vec^[token.mRevealedHashesCount] token.mRevealedHash ≠
          bank.getFinalHash true
      · exact ⟨none, rfl, if_pos hwalk⟩
      refine absurd ?_ (h bank)
      push Not at hlength hwalk
      exact ⟨not_not.mp hstatus, hsig, hcount, Nat.not_lt.mp htotal, hbank, hdepleted,
        Int.not_lt.mp hleft, Nat.not_le.mp hdepth, hlength.1, hlength.2, hwalk⟩

/-! ### The update -/

/-- A bank after a valid token, marked as depleted where the token used it up. -/
def recorded (pool : CTokenPool) (token : CTransmissionToken) (bank : CTokenPoolBank)
    (isBankUpdate : Bool) : CTokenPoolBank :=
  { bank.take token isBankUpdate with
    mStatus := if pool.mDimensionDepth ≤ (bank.take token isBankUpdate).mCurrentDepth then
      .depleted else (bank.take token isBankUpdate).mStatus }

theorem notifyBankStatusChanged_depleted (pool : CTokenPool) :
    pool.notifyBankStatusChanged .depleted =
      { pool with
        mStatus := if pool.mBanks.all (fun bank => bank.mStatus = .depleted) then .depleted
          else pool.mStatus } := by
  unfold notifyBankStatusChanged
  dsimp only
  split <;> rfl

/-- The update of `validateTT` rewrites one bank, and may close the pool with it. -/
theorem record_eq (pool : CTokenPool) (token : CTransmissionToken) (bank : CTokenPoolBank)
    (isBankUpdate : Bool) :
    pool.record token bank isBankUpdate =
      { pool with
        mBanks := pool.mBanks.modify token.mBankIndex fun _ => pool.recorded token bank isBankUpdate
        mStatus := if pool.mDimensionDepth ≤ (bank.take token isBankUpdate).mCurrentDepth ∧
            (pool.mBanks.modify token.mBankIndex fun _ =>
              pool.recorded token bank isBankUpdate).all (fun bank => bank.mStatus = .depleted) then
            .depleted
          else pool.mStatus } := by
  unfold record recorded modifyBank
  dsimp only
  by_cases hlast : pool.mDimensionDepth ≤ (bank.take token isBankUpdate).mCurrentDepth
  · simp only [hlast, true_and]
    have hbanks : (pool.mBanks.modify token.mBankIndex fun _ => bank.take token isBankUpdate).modify
          token.mBankIndex (fun bank => { bank with mStatus := .depleted }) =
        pool.mBanks.modify token.mBankIndex fun _ =>
          { bank.take token isBankUpdate with mStatus := .depleted } := by
      rw [List.modify_modify_eq]
      rfl
    rw [setBankStatus, modifyBank, notifyBankStatusChanged_depleted]
    dsimp only
    rw [hbanks, if_pos trivial]
    rfl
  · simp only [hlast, false_and, if_false]

theorem validateTT_cases (cf : CCryptoFactory) (pool : CTokenPool) (token : CTransmissionToken)
    (updateState isBankUpdate : Bool) :
    (∃ bank, pool.Accepts cf token bank ∧ pool.validateTT cf token updateState isBankUpdate =
      (some (pool.getSingleTokenValue * token.mRevealedHashesCount),
        if updateState then pool.record token bank isBankUpdate else pool)) ∨
    ((∀ bank, ¬pool.Accepts cf token bank) ∧ ∃ value : Option ℕ, value.getD 0 = 0 ∧
      pool.validateTT cf token updateState isBankUpdate = (value, pool)) := by
  by_cases h : ∃ bank, pool.Accepts cf token bank
  · obtain ⟨bank, hbank⟩ := h
    exact Or.inl ⟨bank, hbank, hbank.validateTT_eq updateState isBankUpdate⟩
  · rw [not_exists] at h
    exact Or.inr ⟨h, validateTT_of_not_accepts h updateState isBankUpdate⟩

/-- The bank at an index after the update of a valid token. -/
theorem Accepts.getBankById_record (h : pool.Accepts cf token bank) (isBankUpdate : Bool) (id : ℕ) :
    (pool.record token bank isBankUpdate).getBankById id =
      if token.mBankIndex = id then some (pool.recorded token bank isBankUpdate)
      else pool.getBankById id := by
  have hentry : pool.mBanks[token.mBankIndex]? = some bank := h.bank_eq
  rw [record_eq, getBankById]
  dsimp only
  rw [List.getElem?_modify]
  by_cases hid : token.mBankIndex = id
  · subst hid
    rw [hentry]
    simp
  · simp [hid, getBankById]

end CTokenPool

/-! ### The chains of the wallet -/

/-- A call of the wallet's `validateTT`. -/
structure Call where
  token : CTransmissionToken
  updateState : Bool
  isBankUpdate : Bool

namespace CTokenPool

def receive (cf : CCryptoFactory) (pool : CTokenPool) (call : Call) : Option ℕ × CTokenPool :=
  pool.validateTT cf call.token call.updateState call.isBankUpdate

/-- The depth of the bank `id`, zero where there is none. -/
def depthOf (pool : CTokenPool) (id : ℕ) : ℕ :=
  ((pool.getBankById id).map CTokenPoolBank.mCurrentDepth).getD 0

/-- A call that leaves the bank `id` on its chain and pays a token that names it by the depth it
adds to the bank when it is recorded. -/
structure KeepsChain (cf : CCryptoFactory) (id : ℕ) (pool : CTokenPool) (call : Call) : Prop where
  on_chain : ∀ bank ∈ (pool.receive cf call).2.getBankById id, bank.OnChain cf
  depth_le : pool.depthOf id ≤ (pool.validateTT cf call.token true false).2.depthOf id
  paid_eq : call.token.mBankIndex = id → call.isBankUpdate = false →
    (pool.receive cf call).1.getD 0 = pool.getSingleTokenValue *
      ((pool.validateTT cf call.token true false).2.depthOf id - pool.depthOf id)

/-- A call whose token, if it passes the checks of the bank `id`, says the same with its depth and
with the number of hashes it reveals. -/
def Declares (cf : CCryptoFactory) (id : ℕ) (pool : CTokenPool) (call : Call) : Prop :=
  call.token.mBankIndex = id → call.updateState = true ∨ call.isBankUpdate = false →
    ∀ bank, pool.Accepts cf call.token bank →
      call.token.mBankUsageDepth = bank.mCurrentDepth + call.token.mRevealedHashesCount

variable {cf : CCryptoFactory} {pool : CTokenPool} {token : CTransmissionToken}
  {bank : CTokenPoolBank} {id : ℕ}

/-- A token that says the same with both numbers leaves its bank on its chain. -/
theorem Accepts.onChain_recorded (h : pool.Accepts cf token bank) (hchain : bank.OnChain cf)
    (hdeclares : token.mBankUsageDepth = bank.mCurrentDepth + token.mRevealedHashesCount)
    (isBankUpdate : Bool) : (pool.recorded token bank isBankUpdate).OnChain cf := by
  have hwalk : cf.getSHA2_256Vec^[token.mBankUsageDepth] token.mRevealedHash = bank.mFinalHash := by
    rw [hdeclares]
    exact HashChain.walk_trans _ h.reaches_ceiling hchain.ceiling
  have hlength : ¬(true = false ∨ token.mRevealedHash.length ≠ 32) := by
    simp [h.revealed_length]
  unfold recorded CTokenPoolBank.take
  cases isBankUpdate with
  | false =>
      refine ⟨?_, hchain.preCached⟩
      simp only [CTokenPoolBank.getFinalHash, Bool.false_eq_true, if_false]
      rw [if_neg hlength]
      exact hwalk
  | true =>
      simp only [if_true, CTokenPoolBank.setPreCachedSeedHash, if_neg (not_not_intro h.revealed_length)]
      exact ⟨hchain.ceiling, fun _ => hwalk⟩

theorem Accepts.depthOf_eq (h : pool.Accepts cf token bank) :
    pool.depthOf token.mBankIndex = bank.mCurrentDepth := by
  rw [depthOf, h.bank_eq]
  rfl

theorem Accepts.depthOf_record (h : pool.Accepts cf token bank) (id : ℕ) :
    (pool.record token bank false).depthOf id =
      if token.mBankIndex = id then token.mBankUsageDepth else pool.depthOf id := by
  rw [depthOf, h.getBankById_record]
  by_cases hid : token.mBankIndex = id
  · rw [if_pos hid, if_pos hid]
    rfl
  · rw [if_neg hid, if_neg hid, depthOf]

/-- One call whose token says the same with both numbers. -/
theorem keepsChain_of_declares {call : Call}
    (hchain : ∀ bank ∈ pool.getBankById id, bank.OnChain cf) (hdeclares : pool.Declares cf id call) :
    pool.KeepsChain cf id call := by
  rcases validateTT_cases cf pool call.token call.updateState call.isBankUpdate with
    ⟨bank, hbank, heq⟩ | ⟨hnone, value, hvalue, heq⟩
  · have hrecord := hbank.validateTT_eq true false
    rw [if_pos rfl] at hrecord
    refine ⟨?_, ?_, ?_⟩
    · rw [receive, heq]
      cases hupdate : call.updateState with
      | false => exact hchain
      | true =>
          intro other hother
          rw [if_pos rfl, hbank.getBankById_record] at hother
          by_cases hid : call.token.mBankIndex = id
          · rw [if_pos hid] at hother
            obtain rfl := Option.some.inj hother
            exact hbank.onChain_recorded (hchain bank (hid ▸ hbank.bank_eq))
              (hdeclares hid (Or.inl hupdate) bank hbank) _
          · rw [if_neg hid] at hother
            exact hchain other hother
    · rw [hrecord, hbank.depthOf_record]
      split_ifs with hid
      · rw [← hid, hbank.depthOf_eq]
        exact hbank.deeper.le
      · exact le_rfl
    · intro hid hkind
      rw [receive, heq, hrecord, hbank.depthOf_record, if_pos hid, ← hid, hbank.depthOf_eq,
        hdeclares hid (Or.inr hkind) bank hbank, Nat.add_sub_cancel_left]
      rfl
  · obtain ⟨_, _, hrecord⟩ := validateTT_of_not_accepts hnone true false
    refine ⟨?_, ?_, ?_⟩
    · rw [receive, heq]
      exact hchain
    · rw [hrecord]
    · intro _ _
      rw [receive, heq, hrecord, hvalue, Nat.sub_self, Nat.mul_zero]

/-- The wallet keeps the bank `id` on its chain over every run of such calls. -/
theorem keepsChain_run {calls : List Call} (hfresh : ∀ bank ∈ pool.getBankById id, bank.Fresh)
    (hrun : Machine.EveryStep (receive cf) (Declares cf id) pool calls) :
    Machine.EveryStep (receive cf) (KeepsChain cf id) pool calls := by
  have hstep : ∀ (pool : CTokenPool) (call : Call),
      (∀ bank ∈ pool.getBankById id, bank.OnChain cf) → pool.Declares cf id call →
      pool.KeepsChain cf id call ∧
        ∀ bank ∈ (pool.receive cf call).2.getBankById id, bank.OnChain cf := by
    intro pool call hchain hdeclares
    have hkeeps := keepsChain_of_declares hchain hdeclares
    exact ⟨hkeeps, hkeeps.on_chain⟩
  exact (Machine.everyStep_of_invariant hstep
    (fun bank hbank => (hfresh bank hbank).onChain) hrun).1

end CTokenPool
end Wallet

/-! ### The chains of the node -/

/-- A call of the node's `validateTT`. -/
structure Call where
  token : CTransmissionToken
  updateState : Bool

namespace CTokenPool

def receiveCall (cf : CCryptoFactory) (pool : CTokenPool) (call : Call) : TTAnswer × CTokenPool :=
  pool.validateTT cf call.token call.updateState

/-- The depth of the bank `id` in the node's own numbers, zero where there is none. -/
def currentDepth (pool : CTokenPool) (id : UInt64) : BigInt :=
  ((pool.getBankById id).map CTokenPoolBank.mCurrentDepth).getD 0

structure KeepsChain (cf : CCryptoFactory) (id : UInt64) (pool : CTokenPool) (call : Call) :
    Prop where
  on_chain : ∀ bank ∈ (pool.receiveCall cf call).2.getBankById id, bank.OnChain cf
  depth_le : pool.currentDepth id ≤ (pool.validateTT cf call.token true).2.currentDepth id
  paid_eq : call.token.mBankIndex = id →
    (pool.receiveCall cf call).1.worthValue = pool.getSingleTokenValue *
      ((pool.validateTT cf call.token true).2.currentDepth id - pool.currentDepth id)

variable {cf : CCryptoFactory} {pool : CTokenPool} {token : CTransmissionToken}
  {bank : CTokenPoolBank} {id : UInt64}

theorem Accepts.getBankById_moveTo (h : pool.Accepts cf token bank) (id : UInt64) :
    (pool.moveTo token.mBankIndex.toNat token.mBankUsageDepth token.mRevealedHash).getBankById id =
      if token.mBankIndex = id then
        some (bank.movedTo pool.mDimensionDepth token.mBankUsageDepth token.mRevealedHash)
      else pool.getBankById id := by
  have hentry : pool.mBanks[token.mBankIndex.toNat]? = some bank := h.bank_eq
  rw [getBankById, moveTo_mBanks]
  by_cases hid : token.mBankIndex = id
  · subst hid
    rw [if_pos rfl, List.getElem?_modify_eq, hentry]
    rfl
  · rw [if_neg hid, List.getElem?_modify_ne _ _ (fun heq => hid (UInt64.toNat_inj.mp heq)),
      getBankById]

theorem Accepts.currentDepth_eq (h : pool.Accepts cf token bank) :
    pool.currentDepth token.mBankIndex = bank.mCurrentDepth := by
  rw [currentDepth, h.bank_eq]
  rfl

theorem Accepts.currentDepth_moveTo (h : pool.Accepts cf token bank) (id : UInt64) :
    (pool.moveTo token.mBankIndex.toNat token.mBankUsageDepth token.mRevealedHash).currentDepth id =
      if token.mBankIndex = id then token.mBankUsageDepth else pool.currentDepth id := by
  rw [currentDepth, h.getBankById_moveTo]
  by_cases hid : token.mBankIndex = id
  · rw [if_pos hid, if_pos hid]
    rfl
  · rw [if_neg hid, if_neg hid, currentDepth]

/-- The depth difference is walked, so the node's ceilings never leave their chains. -/
theorem Accepts.onChain_movedTo (h : pool.Accepts cf token bank) (hchain : bank.OnChain cf) :
    (bank.movedTo pool.mDimensionDepth token.mBankUsageDepth token.mRevealedHash).OnChain cf := by
  refine ⟨?_, hchain.preCached⟩
  have hlength : ¬(true = false ∨ token.mRevealedHash.length ≠ 32) := by
    simp [h.revealed_length]
  have hsplit : token.mBankUsageDepth.toNat =
      bank.mCurrentDepth.toNat + (token.mBankUsageDepth.toNat - bank.mCurrentDepth.toNat) :=
    (Nat.add_sub_cancel' (BitVec.le_def.mp h.depth_le)).symm
  unfold CTokenPoolBank.movedTo CTokenPoolBank.getFinalHash
  dsimp only
  rw [if_neg hlength, hsplit]
  exact HashChain.walk_trans _ h.reaches_ceiling hchain.ceiling

theorem keepsChain (hchain : ∀ bank ∈ pool.getBankById id, bank.OnChain cf) (call : Call) :
    pool.KeepsChain cf id call := by
  by_cases haccepts : ∃ bank, pool.Accepts cf call.token bank
  · obtain ⟨bank, hbank⟩ := haccepts
    have heq := hbank.validateTT_eq call.updateState
    have hrecord := hbank.validateTT_eq true
    rw [if_pos rfl] at hrecord
    refine ⟨?_, ?_, ?_⟩
    · rw [receiveCall, heq]
      cases call.updateState with
      | false => exact hchain
      | true =>
          intro other hother
          rw [if_pos rfl, hbank.getBankById_moveTo] at hother
          by_cases hid : call.token.mBankIndex = id
          · rw [if_pos hid] at hother
            obtain rfl := Option.some.inj hother
            exact hbank.onChain_movedTo (hchain bank (hid ▸ hbank.bank_eq))
          · rw [if_neg hid] at hother
            exact hchain other hother
    · rw [hrecord, hbank.currentDepth_moveTo]
      split_ifs with hid
      · rw [← hid, hbank.currentDepth_eq]
        exact hbank.depth_le
      · exact BitVec.le_refl _
    · intro hid
      rw [receiveCall, heq, hrecord, hbank.currentDepth_moveTo, if_pos hid, ← hid,
        hbank.currentDepth_eq]
  · rw [not_exists] at haccepts
    obtain ⟨_, heq⟩ := validateTT_of_not_accepts haccepts call.updateState
    obtain ⟨_, hrecord⟩ := validateTT_of_not_accepts haccepts true
    refine ⟨?_, ?_, ?_⟩
    · rw [receiveCall, heq]
      exact hchain
    · rw [hrecord]
      exact BitVec.le_refl _
    · intro _
      rw [receiveCall, heq, hrecord, BitVec.sub_self]
      exact (BitVec.mul_zero).symm

/-- The node keeps the bank `id` on its chain over every run. -/
theorem keepsChain_run (hfresh : ∀ bank ∈ pool.getBankById id, bank.Fresh) (calls : List Call) :
    Machine.EveryStep (receiveCall cf) (KeepsChain cf id) pool calls := by
  have hstep : ∀ (pool : CTokenPool) (call : Call),
      (∀ bank ∈ pool.getBankById id, bank.OnChain cf) → True →
      pool.KeepsChain cf id call ∧
        ∀ bank ∈ (pool.receiveCall cf call).2.getBankById id, bank.OnChain cf := by
    intro pool call hchain _
    have hkeeps := keepsChain hchain call
    exact ⟨hkeeps, hkeeps.on_chain⟩
  exact (Machine.everyStep_of_invariant hstep
    (fun bank hbank => (hfresh bank hbank).onChain)
    (Machine.everyStep_of_forall (fun _ _ => trivial) pool calls)).1

end CTokenPool

/-! ### Both sides at once -/

/-- A bank as far as both verifiers look at it. -/
def CTokenPoolBank.shown (bank : CTokenPoolBank) : ℕ × Bytes × eTokenPoolBankStatus :=
  (bank.mCurrentDepth.toNat, bank.getFinalHash true, bank.mStatus)

def Wallet.CTokenPoolBank.shown (bank : Wallet.CTokenPoolBank) :
    ℕ × Bytes × eTokenPoolBankStatus :=
  (bank.mCurrentDepth, bank.getFinalHash true, bank.mStatus)

/-- A wallet and a node that hold the same pool: the depth and the ceiling of every bank agree. -/
structure Mirrors (wallet : Wallet.CTokenPool) (node : CTokenPool) : Prop where
  depth_eq : wallet.mDimensionDepth = node.mDimensionDepth.toNat
  count_eq : wallet.mDimensionsCount = node.mDimensionsCount.toNat
  total_eq : wallet.mTotalValue = node.mTotalValue.toNat
  status_eq : wallet.mStatus = node.mStatus
  key_eq : wallet.mPubKey = node.mPubKey
  banks_eq : wallet.mBanks.map Wallet.CTokenPoolBank.shown = node.mBanks.map CTokenPoolBank.shown

/-- The wallet and the node taking in the same call. -/
def receiveBoth (cf : CCryptoFactory) (sides : Wallet.CTokenPool × CTokenPool) (call : Call) :
    (Option ℕ × TTAnswer) × (Wallet.CTokenPool × CTokenPool) :=
  let wallet := sides.1.validateTT cf (.ofNode call.token) call.updateState false
  let node := sides.2.validateTT cf call.token call.updateState
  ((wallet.1, node.1), (wallet.2, node.2))

/-- The two sides answer with the same value and reach the same depths. -/
structure SameAnswers (cf : CCryptoFactory) (sides : Wallet.CTokenPool × CTokenPool) (call : Call) :
    Prop where
  value_eq : (receiveBoth cf sides call).1.1.getD 0 =
    (receiveBoth cf sides call).1.2.worthValue.toNat
  depth_eq : ∀ id : UInt64, (receiveBoth cf sides call).2.1.depthOf id.toNat =
    ((receiveBoth cf sides call).2.2.currentDepth id).toNat

/-- A call whose token, if one of the sides takes it for an advance of its bank, says the same with
both numbers, and is worth less than the numbers of the node can hold. -/
structure Matched (cf : CCryptoFactory) (sides : Wallet.CTokenPool × CTokenPool) (call : Call) :
    Prop where
  wallet_declares : ∀ bank, sides.1.Accepts cf (.ofNode call.token) bank →
    call.token.mBankUsageDepth.toNat = bank.mCurrentDepth + call.token.mRevealedHashesCount.toNat
  node_declares : ∀ bank, sides.2.Accepts cf call.token bank →
    bank.mCurrentDepth < call.token.mBankUsageDepth →
    call.token.mBankUsageDepth.toNat =
      bank.mCurrentDepth.toNat + call.token.mRevealedHashesCount.toNat
  fits : ∀ bank, sides.1.Accepts cf (.ofNode call.token) bank →
    sides.1.getSingleTokenValue * call.token.mRevealedHashesCount.toNat < 2 ^ 256

namespace Mirrors

variable {cf : CCryptoFactory} {wallet : Wallet.CTokenPool} {node : CTokenPool}
  {token : CTransmissionToken}

theorem getBankById (h : Mirrors wallet node) (id : UInt64) :
    (wallet.getBankById id.toNat).map Wallet.CTokenPoolBank.shown =
      (node.getBankById id).map CTokenPoolBank.shown := by
  rw [Wallet.CTokenPool.getBankById, CTokenPool.getBankById, ← List.getElem?_map,
    ← List.getElem?_map, h.banks_eq]

theorem depthOf (h : Mirrors wallet node) (id : UInt64) :
    wallet.depthOf id.toNat = (node.currentDepth id).toNat := by
  have hbank := h.getBankById id
  rw [Wallet.CTokenPool.depthOf, CTokenPool.currentDepth]
  cases hnode : node.getBankById id with
  | none =>
      rw [hnode, Option.map_none, Option.map_eq_none_iff] at hbank
      rw [hbank]
      rfl
  | some other =>
      rw [hnode] at hbank
      obtain ⟨bank, hwallet, hshown⟩ := Option.map_eq_some_iff.mp hbank
      rw [hwallet]
      exact congrArg Prod.fst hshown

theorem getSingleTokenValue (h : Mirrors wallet node) :
    wallet.getSingleTokenValue = node.getSingleTokenValue.toNat := by
  rw [Wallet.CTokenPool.getSingleTokenValue, h.depth_eq, h.count_eq, h.total_eq]
  by_cases hnone : node.mDimensionDepth = 0 ∨ node.mDimensionsCount = 0
  · rw [CTokenPool.getSingleTokenValue, if_pos hnone, if_pos]
    · rfl
    · exact hnone.imp (fun h => by rw [h]; rfl) (fun h => by rw [h]; rfl)
  · obtain ⟨hD, hN⟩ := not_or.mp hnone
    rw [node.getSingleTokenValue_toNat hD hN, if_neg]
    rintro (hzero | hzero)
    · exact hD (BitVec.eq_of_toNat_eq hzero)
    · exact hN (UInt64.toNat_inj.mp hzero)

/-- What is left in a bank is the same number on both sides. -/
theorem getValueLeft (h : Mirrors wallet node) {bank : Wallet.CTokenPoolBank}
    {other : CTokenPoolBank} (hshown : bank.shown = other.shown)
    (hdepth : other.mStatus ≠ .depleted → other.mCurrentDepth ≤ node.mDimensionDepth) :
    bank.getValueLeft wallet = (other.getValueLeft node).toNat := by
  have hcurrent : bank.mCurrentDepth = other.mCurrentDepth.toNat := congrArg Prod.fst hshown
  have hstatus : bank.mStatus = other.mStatus := congrArg (fun s => s.2.2) hshown
  rw [Wallet.CTokenPoolBank.getValueLeft, hstatus]
  by_cases hdepleted : other.mStatus = .depleted
  · rw [if_pos hdepleted, CTokenPoolBank.getValueLeft, if_pos hdepleted]
    rfl
  have hle := BitVec.le_def.mp (hdepth hdepleted)
  rw [if_neg hdepleted, CTokenPoolBank.getValueLeft_toNat hdepleted (hdepth hdepleted), hcurrent,
    h.depth_eq, h.getSingleTokenValue]
  split_ifs with hnone
  · rcases hnone with hD | hfull
    · rw [hD, Nat.zero_sub, Nat.mul_zero]
      rfl
    · rw [hfull, Nat.sub_self, Nat.mul_zero]
      rfl
  · push_cast [hle]
    exact mul_comm _ _

/-- A token the wallet takes in is one the node takes in, if it says the same with both numbers. -/
theorem node_accepts (h : Mirrors wallet node)
    (hdepth : ∀ other ∈ node.mBanks, other.mStatus ≠ .depleted →
      other.mCurrentDepth < node.mDimensionDepth)
    {bank : Wallet.CTokenPoolBank} (haccepts : wallet.Accepts cf (.ofNode token) bank)
    (hdeclares : token.mBankUsageDepth.toNat =
      bank.mCurrentDepth + token.mRevealedHashesCount.toNat) :
    ∃ other, node.Accepts cf token other ∧ bank.shown = other.shown := by
  have hshown := h.getBankById token.mBankIndex
  rw [show wallet.getBankById token.mBankIndex.toNat = some bank from haccepts.bank_eq,
    Option.map_some] at hshown
  obtain ⟨other, hother, hsame⟩ := Option.map_eq_some_iff.mp hshown.symm
  have hcurrent : bank.mCurrentDepth = other.mCurrentDepth.toNat := congrArg Prod.fst hsame.symm
  have hceiling : bank.getFinalHash true = other.getFinalHash true :=
    congrArg (fun s => s.2.1) hsame.symm
  have hstatus : bank.mStatus = other.mStatus := congrArg (fun s => s.2.2) hsame.symm
  have hactive : other.mStatus ≠ .depleted := hstatus ▸ haccepts.bank_active
  have hwithin := hdepth other (List.mem_of_getElem? hother) hactive
  have hdeeper : other.mCurrentDepth < token.mBankUsageDepth := by
    rw [BitVec.lt_def, ← hcurrent]
    exact haccepts.deeper
  refine ⟨other, ⟨?_, ?_, ?_, ?_, hother, hactive, ?_, BitVec.le_of_lt hdeeper, ?_,
    haccepts.revealed_length, ?_, ?_⟩, hsame.symm⟩
  · rw [← h.status_eq]
    exact haccepts.pool_active
  · rw [← h.key_eq]
    exact haccepts.signed
  · intro hzero
    exact haccepts.count_ne_zero (congrArg BitVec.toNat hzero)
  · rw [BitVec.le_def]
    exact h.total_eq ▸ haccepts.value_le_total
  · have hleft := haccepts.value_le_left
    rw [h.getValueLeft hsame.symm fun _ => BitVec.le_of_lt hwithin] at hleft
    exact BitVec.le_def.mpr (Int.ofNat_le.mp hleft)
  · intro hrepeat
    exact BitVec.lt_irrefl _ (hrepeat.1 ▸ hdeeper)
  · exact hceiling ▸ haccepts.ceiling_length
  · rw [hdeclares, hcurrent, Nat.add_sub_cancel_left, ← hceiling]
    exact haccepts.reaches_ceiling

/-- A token the node takes for an advance is one the wallet takes in, if it says the same with both
numbers. -/
theorem wallet_accepts (h : Mirrors wallet node)
    (hdepth : ∀ other ∈ node.mBanks, other.mStatus ≠ .depleted →
      other.mCurrentDepth < node.mDimensionDepth)
    {other : CTokenPoolBank} (haccepts : node.Accepts cf token other)
    (hdeeper : other.mCurrentDepth < token.mBankUsageDepth)
    (hdeclares : token.mBankUsageDepth.toNat =
      other.mCurrentDepth.toNat + token.mRevealedHashesCount.toNat) :
    ∃ bank, wallet.Accepts cf (.ofNode token) bank := by
  have hshown := h.getBankById token.mBankIndex
  rw [haccepts.bank_eq, Option.map_some] at hshown
  obtain ⟨bank, hbank, hsame⟩ := Option.map_eq_some_iff.mp hshown
  have hcurrent : bank.mCurrentDepth = other.mCurrentDepth.toNat := congrArg Prod.fst hsame
  have hceiling : bank.getFinalHash true = other.getFinalHash true :=
    congrArg (fun s => s.2.1) hsame
  have hstatus : bank.mStatus = other.mStatus := congrArg (fun s => s.2.2) hsame
  have hwithin := hdepth other (List.mem_of_getElem? haccepts.bank_eq) haccepts.bank_active
  refine ⟨bank, ?_, ?_, ?_, ?_, hbank, ?_, ?_, ?_, haccepts.revealed_length, ?_, ?_⟩
  · rw [h.status_eq]
    exact haccepts.pool_active
  · rw [h.key_eq]
    exact haccepts.signed
  · intro hzero
    exact haccepts.count_ne_zero (BitVec.eq_of_toNat_eq hzero)
  · rw [Wallet.CTokenPool.getTotalValue, h.total_eq]
    exact BitVec.le_def.mp haccepts.value_le_total
  · rw [hstatus]
    exact haccepts.bank_active
  · rw [h.getValueLeft hsame fun _ => BitVec.le_of_lt hwithin]
    exact Int.ofNat_le.mpr (BitVec.le_def.mp haccepts.value_le_left)
  · rw [hcurrent]
    exact BitVec.lt_def.mp hdeeper
  · rw [hceiling]
    exact haccepts.ceiling_length
  · rw [hceiling, ← haccepts.reaches_ceiling, hdeclares, Nat.add_sub_cancel_left]
    rfl

/-- Both sides record the token: they still hold the same pool. -/
theorem record (h : Mirrors wallet node) {bank : Wallet.CTokenPoolBank} {other : CTokenPoolBank}
    (hnode : node.Accepts cf token other) (hshown : bank.shown = other.shown) :
    Mirrors (wallet.record (.ofNode token) bank false)
      (node.moveTo token.mBankIndex.toNat token.mBankUsageDepth token.mRevealedHash) := by
  have hlength : ¬(true = false ∨ token.mRevealedHash.length ≠ 32) := by
    simp [hnode.revealed_length]
  have hlast : wallet.mDimensionDepth ≤ (bank.take (.ofNode token) false).mCurrentDepth ↔
      node.mDimensionDepth ≤ token.mBankUsageDepth := by
    rw [h.depth_eq, BitVec.le_def]
    rfl
  have hstatus : bank.mStatus = other.mStatus := congrArg (fun s => s.2.2) hshown
  have hmoved : (wallet.recorded (.ofNode token) bank false).shown =
      (other.movedTo node.mDimensionDepth token.mBankUsageDepth token.mRevealedHash).shown := by
    refine Prod.ext rfl (Prod.ext ?_ ?_)
    · show (if true = false ∨ token.mRevealedHash.length ≠ 32 then _ else token.mRevealedHash) =
        if true = false ∨ token.mRevealedHash.length ≠ 32 then _ else token.mRevealedHash
      rw [if_neg hlength, if_neg hlength]
    · show (if _ then _ else bank.mStatus) = if _ then _ else other.mStatus
      rw [hstatus]
      exact if_congr hlast rfl rfl
  have hbanks : (wallet.mBanks.modify token.mBankIndex.toNat fun _ =>
        wallet.recorded (.ofNode token) bank false).map Wallet.CTokenPoolBank.shown =
      (node.mBanks.modify token.mBankIndex.toNat fun bank =>
        bank.movedTo node.mDimensionDepth token.mBankUsageDepth token.mRevealedHash).map
        CTokenPoolBank.shown := by
    have hentry : node.mBanks[token.mBankIndex.toNat]? = some other := hnode.bank_eq
    let moved := other.movedTo node.mDimensionDepth token.mBankUsageDepth token.mRevealedHash
    have hconst : (node.mBanks.modify token.mBankIndex.toNat fun bank =>
          bank.movedTo node.mDimensionDepth token.mBankUsageDepth token.mRevealedHash) =
        node.mBanks.modify token.mBankIndex.toNat fun _ => moved := by
      apply ListUpdate.modify_congr hentry
      rfl
    rw [hconst]
    calc (wallet.mBanks.modify token.mBankIndex.toNat fun _ =>
          wallet.recorded (.ofNode token) bank false).map Wallet.CTokenPoolBank.shown
        = (wallet.mBanks.map Wallet.CTokenPoolBank.shown).modify token.mBankIndex.toNat
            fun _ => moved.shown := ListUpdate.map_modify fun _ => hmoved
      _ = (node.mBanks.map CTokenPoolBank.shown).modify token.mBankIndex.toNat
            fun _ => moved.shown := by rw [h.banks_eq]
      _ = (node.mBanks.modify token.mBankIndex.toNat fun _ => moved).map CTokenPoolBank.shown :=
          (ListUpdate.map_modify (g := CTokenPoolBank.shown) (h := fun _ => moved.shown)
            fun _ => rfl).symm
  rw [Wallet.CTokenPool.record_eq, CTokenPool.moveTo]
  refine ⟨h.depth_eq, h.count_eq, h.total_eq, ?_, h.key_eq, hbanks⟩
  have hall : (wallet.mBanks.modify token.mBankIndex.toNat fun _ =>
        wallet.recorded (.ofNode token) bank false).all (fun bank => bank.mStatus = .depleted) =
      (node.mBanks.modify token.mBankIndex.toNat fun bank =>
        bank.movedTo node.mDimensionDepth token.mBankUsageDepth token.mRevealedHash).all
        (fun other => other.mStatus = .depleted) := by
    have hmap := congrArg
      (fun l => l.all fun s => decide (s.2.2 = eTokenPoolBankStatus.depleted)) hbanks
    rwa [List.all_map, List.all_map] at hmap
  show (if _ ∧ _ then _ else wallet.mStatus) = if _ then node.statusFor _ else node.mStatus
  rw [CTokenPool.statusFor, h.status_eq]
  by_cases hfull : node.mDimensionDepth ≤ token.mBankUsageDepth
  · rw [if_pos hfull]
    exact if_congr ⟨fun hboth => hall ▸ hboth.2, fun hdone => ⟨hlast.mpr hfull, hall ▸ hdone⟩⟩ rfl rfl
  · rw [if_neg hfull, if_neg fun hboth => hfull (hlast.mp hboth.1)]

/-- The node takes in a token that repeats the ceiling of a bank in use: nothing it shows changes. -/
theorem repeated (h : Mirrors wallet node) {other : CTokenPoolBank}
    (hnode : node.Accepts cf token other) (hsame : token.mBankUsageDepth = other.mCurrentDepth)
    (hdepth : other.mCurrentDepth < node.mDimensionDepth) :
    Mirrors wallet
      (node.moveTo token.mBankIndex.toNat token.mBankUsageDepth token.mRevealedHash) := by
  have hlast : ¬node.mDimensionDepth ≤ token.mBankUsageDepth := by
    rw [hsame]
    exact BitVec.not_le.mpr hdepth
  have hlength : ¬(true = false ∨ token.mRevealedHash.length ≠ 32) := by
    simp [hnode.revealed_length]
  have hceiling : token.mRevealedHash = other.getFinalHash true := by
    have hwalk := hnode.reaches_ceiling
    rwa [hsame, Nat.sub_self] at hwalk
  have hshown : (other.movedTo node.mDimensionDepth token.mBankUsageDepth
      token.mRevealedHash).shown = other.shown := by
    refine Prod.ext (congrArg BitVec.toNat hsame) (Prod.ext ?_ ?_)
    · show (if true = false ∨ token.mRevealedHash.length ≠ 32 then _ else token.mRevealedHash) = _
      rw [if_neg hlength]
      exact hceiling
    · exact if_neg hlast
  refine ⟨h.depth_eq, h.count_eq, h.total_eq, ?_, h.key_eq, ?_⟩
  · rw [CTokenPool.moveTo]
    exact h.status_eq.trans (if_neg hlast).symm
  · rw [CTokenPool.moveTo_mBanks, ListUpdate.map_modify_of_eq hnode.bank_eq hshown, h.banks_eq]

end Mirrors

/-- What the two sides keep: they hold the same pool, in which a bank in use has tokens left. -/
structure Lockstep (sides : Wallet.CTokenPool × CTokenPool) : Prop where
  mirrors : Mirrors sides.1 sides.2
  in_use : ∀ other ∈ sides.2.mBanks, other.mStatus ≠ .depleted →
    other.mCurrentDepth < sides.2.mDimensionDepth

theorem CTokenPool.in_use_moveTo {node : CTokenPool} {id : ℕ} {depth : BigInt} {hash : Bytes}
    (hin : ∀ other ∈ node.mBanks, other.mStatus ≠ .depleted →
      other.mCurrentDepth < node.mDimensionDepth) :
    ∀ other ∈ (node.moveTo id depth hash).mBanks, other.mStatus ≠ .depleted →
      other.mCurrentDepth < node.mDimensionDepth := by
  rw [moveTo_mBanks]
  refine ListUpdate.forall_mem_modify (fun bank _ _ hactive => ?_) hin
  by_contra hlast
  exact hactive (if_pos (BitVec.not_lt.mp hlast))

namespace Lockstep

variable {cf : CCryptoFactory} {sides : Wallet.CTokenPool × CTokenPool} {call : Call}

/-- **One call of both sides.** -/
theorem step (h : Lockstep sides) (hmatched : Matched cf sides call) :
    (receiveBoth cf sides call).1.1.getD 0 = (receiveBoth cf sides call).1.2.worthValue.toNat ∧
      Lockstep (receiveBoth cf sides call).2 := by
  obtain ⟨hmirrors, hin⟩ := h
  rcases Wallet.CTokenPool.validateTT_cases cf sides.1 (.ofNode call.token) call.updateState false
    with ⟨bank, hbank, hwallet⟩ | ⟨hnone, value, hvalue, hwallet⟩
  · -- the wallet takes the token in, and so does the node
    have hdeclares := hmatched.wallet_declares bank hbank
    obtain ⟨other, hother, hshown⟩ := hmirrors.node_accepts hin hbank hdeclares
    have hnode := hother.validateTT_eq call.updateState
    have hcurrent : bank.mCurrentDepth = other.mCurrentDepth.toNat := congrArg Prod.fst hshown
    simp only [receiveBoth, hwallet, hnode]
    refine ⟨?_, ?_⟩
    · have hfits := hmatched.fits bank hbank
      rw [hmirrors.getSingleTokenValue] at hfits
      rw [Option.getD_some, BitVec.toNat_mul, BitVec.toNat_sub_of_le hother.depth_le, hdeclares,
        hcurrent, Nat.add_sub_cancel_left, Nat.mod_eq_of_lt hfits, hmirrors.getSingleTokenValue]
      rfl
    · cases call.updateState with
      | false => exact ⟨hmirrors, hin⟩
      | true => exact ⟨hmirrors.record hother hshown, CTokenPool.in_use_moveTo hin⟩
  · by_cases haccepts : ∃ other, sides.2.Accepts cf call.token other
    · -- only a token that repeats the ceiling of its bank is left, and it is worth nothing
      obtain ⟨other, hother⟩ := haccepts
      have hsame : call.token.mBankUsageDepth = other.mCurrentDepth := by
        by_contra hne
        have hdeeper : other.mCurrentDepth < call.token.mBankUsageDepth :=
          BitVec.lt_of_le_ne hother.depth_le (Ne.symm hne)
        obtain ⟨bank, hbank⟩ := hmirrors.wallet_accepts hin hother hdeeper
          (hmatched.node_declares other hother hdeeper)
        exact hnone bank hbank
      have hnode := hother.validateTT_eq call.updateState
      have hdepth := hin other (List.mem_of_getElem? hother.bank_eq) hother.bank_active
      have hworth : sides.2.getSingleTokenValue *
          (call.token.mBankUsageDepth - other.mCurrentDepth) = 0 := by
        rw [hsame, BitVec.sub_self]
        exact BitVec.mul_zero
      simp only [receiveBoth, hwallet, hnode, hvalue, hworth]
      refine ⟨rfl, ?_⟩
      · cases call.updateState with
        | false => exact ⟨hmirrors, hin⟩
        | true => exact ⟨hmirrors.repeated hother hsame hdepth, CTokenPool.in_use_moveTo hin⟩
    · rw [not_exists] at haccepts
      obtain ⟨isValid, hnode⟩ := CTokenPool.validateTT_of_not_accepts haccepts call.updateState
      simp only [receiveBoth, hwallet, hnode, hvalue]
      exact ⟨rfl, hmirrors, hin⟩

/-- Two sides that start with the same fresh pool, over a run of such calls. -/
theorem sameAnswers_run {wallet : Wallet.CTokenPool} {node : CTokenPool} {calls : List Call}
    (hmirrors : Mirrors wallet node) (hfresh : ∀ bank ∈ node.mBanks, bank.Fresh)
    (hD : node.mDimensionDepth ≠ 0)
    (hrun : Machine.EveryStep (receiveBoth cf) (Matched cf) (wallet, node) calls) :
    Machine.EveryStep (receiveBoth cf) (SameAnswers cf) (wallet, node) calls := by
  have hstep : ∀ (sides : Wallet.CTokenPool × CTokenPool) (call : Call),
      Lockstep sides → Matched cf sides call →
      SameAnswers cf sides call ∧ Lockstep (receiveBoth cf sides call).2 := by
    intro sides call hlock hmatched
    obtain ⟨hvalue, hnext⟩ := hlock.step hmatched
    exact ⟨⟨hvalue, hnext.mirrors.depthOf⟩, hnext⟩
  have hstart : Lockstep (wallet, node) := by
    refine ⟨hmirrors, fun bank hbank _ => ?_⟩
    rw [(hfresh bank hbank).depth_eq]
    exact BitVec.lt_of_le_ne (Nat.zero_le _) (Ne.symm hD)
  exact (Machine.everyStep_of_invariant hstep hstart hrun).1

end Lockstep

/-- **The hash chains of both sides.** A bank that starts fresh stays on its chain, and its tokens
are paid by the depth they add: at the wallet as long as the tokens it accepts say the same with
their depth and with their number of hashes, at the node always. Over tokens that do, wallet and
node give the same answers. -/
theorem chains_hold (cf : CCryptoFactory) :
    (∀ (wallet : Wallet.CTokenPool) (id : ℕ) (calls : List Wallet.Call),
      (∀ bank ∈ wallet.getBankById id, bank.Fresh) →
      Machine.EveryStep (Wallet.CTokenPool.receive cf) (Wallet.CTokenPool.Declares cf id)
        wallet calls →
      Machine.EveryStep (Wallet.CTokenPool.receive cf) (Wallet.CTokenPool.KeepsChain cf id)
        wallet calls) ∧
    (∀ (node : CTokenPool) (id : UInt64) (calls : List Call),
      (∀ bank ∈ node.getBankById id, bank.Fresh) →
      Machine.EveryStep (CTokenPool.receiveCall cf) (CTokenPool.KeepsChain cf id) node calls) ∧
    (∀ (wallet : Wallet.CTokenPool) (node : CTokenPool) (calls : List Call),
      Mirrors wallet node → (∀ bank ∈ node.mBanks, bank.Fresh) → node.mDimensionDepth ≠ 0 →
      Machine.EveryStep (receiveBoth cf) (Matched cf) (wallet, node) calls →
      Machine.EveryStep (receiveBoth cf) (SameAnswers cf) (wallet, node) calls) :=
  ⟨fun _ _ _ hfresh hrun => Wallet.CTokenPool.keepsChain_run hfresh hrun,
    fun _ _ calls hfresh => CTokenPool.keepsChain_run hfresh calls,
    fun _ _ _ hmirrors hfresh hD hrun => Lockstep.sameAnswers_run hmirrors hfresh hD hrun⟩

/-- The seed of `oneTokenGenerated`, revealed as its one hash but at the depth `depth`. -/
def seedToken (depth : BigInt) : CTransmissionToken :=
  { mBankIndex := 0, mValue := 1, mRevealedHash := (countingBytes 2).val
    mRevealedHashesCount := 1, mBankUsageDepth := depth }

theorem chains_hold_oneToken :
    Machine.EveryStep (Wallet.CTokenPool.receive countingHash)
      (Wallet.CTokenPool.KeepsChain countingHash 0) (Wallet.oneTokenWallet true)
      [⟨.ofNode (seedToken 1), true, false⟩] ∧
    Machine.EveryStep (CTokenPool.receiveCall countingHash)
      (CTokenPool.KeepsChain countingHash 0) oneTokenGenerated [⟨seedToken 1, true⟩] ∧
    Machine.EveryStep (receiveBoth countingHash) (SameAnswers countingHash)
      (Wallet.oneTokenWallet true, oneTokenGenerated) [⟨seedToken 1, true⟩] := by
  have hfresh : ∀ bank ∈ (Wallet.oneTokenWallet true).getBankById 0, bank.Fresh := by
    intro bank hbank
    obtain rfl := Option.some.inj hbank
    exact ⟨rfl, rfl, rfl⟩
  have hnode : ∀ bank ∈ oneTokenGenerated.mBanks, bank.Fresh := by
    intro bank hbank
    obtain rfl := List.mem_singleton.mp hbank
    exact ⟨rfl, rfl, rfl⟩
  have hwallet : ∀ bank, (Wallet.oneTokenWallet true).Accepts countingHash (.ofNode (seedToken 1)) bank →
      bank.mCurrentDepth = 0 :=
    fun bank haccepts => (hfresh bank haccepts.bank_eq).depth_eq
  obtain ⟨hchain, hnodeChain, hboth⟩ := chains_hold countingHash
  refine ⟨hchain _ 0 _ hfresh ⟨fun _ _ bank haccepts => ?_, trivial⟩,
    hnodeChain _ 0 _ fun bank hbank => hnode bank (List.mem_of_getElem? hbank),
    hboth _ _ _ ⟨rfl, rfl, rfl, rfl, rfl, rfl⟩ hnode (by decide)
      ⟨⟨fun bank haccepts => ?_, fun bank haccepts _ => ?_, fun _ _ => by decide⟩, trivial⟩⟩
  · rw [hwallet bank haccepts]
    rfl
  · rw [hwallet bank haccepts]
    rfl
  · rw [(hnode bank (List.mem_of_getElem? haccepts.bank_eq)).depth_eq]
    rfl

/-- The wallet takes the seed at depth two for its one hash: it pays one token for two, and the
ceiling it stores leads past the final hash. -/
theorem chains_fail :
    (∀ bank ∈ (Wallet.oneTokenWallet true).getBankById 0, bank.Fresh) ∧
    ¬Machine.EveryStep (Wallet.CTokenPool.receive countingHash)
      (Wallet.CTokenPool.KeepsChain countingHash 0) (Wallet.oneTokenWallet true)
      [⟨.ofNode (seedToken 2), true, false⟩] := by
  refine ⟨fun bank hbank => ?_, fun hrun => ?_⟩
  · obtain rfl := Option.some.inj hbank
    exact ⟨rfl, rfl, rfl⟩
  · exact absurd (hrun.1.paid_eq rfl rfl) (by decide)

end Gridnet
