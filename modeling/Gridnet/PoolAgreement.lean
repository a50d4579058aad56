import Gridnet.PoolCodec
import Mathlib.Algebra.Order.Floor.Div

/-! Payments over a state-less channel. The issuer holds the seeds and walks a chain down to the
hash it reveals; the recipient walks the revealed hash up to its ceiling. Both move the same public
view of the pool by the same step, so they agree after every payment if they do so before the first.
A recipient that read its pool from packed data may not: the status of a bank is not packed. -/

namespace Gridnet

/-- What both ends of a channel know of a bank. -/
structure BankView where
  finalHash : Bytes
  currentDepth : BigInt
  currentHash : Bytes
  status : eTokenPoolBankStatus
  deriving DecidableEq, Repr

/-- What both ends of a channel know of a pool. -/
structure PoolView where
  dimensionDepth : BigInt
  dimensionsCount : UInt64
  totalValue : BigInt
  status : eTokenPoolStatus
  banks : List BankView
  deriving DecidableEq, Repr

def CTokenPoolBank.view (bank : CTokenPoolBank) : BankView :=
  ⟨bank.mFinalHash, bank.mCurrentDepth, bank.mCurrentFinalHash, bank.mStatus⟩

def CTokenPool.view (pool : CTokenPool) : PoolView :=
  ⟨pool.mDimensionDepth, pool.mDimensionsCount, pool.mTotalValue, pool.mStatus,
    pool.mBanks.map CTokenPoolBank.view⟩

/-- The hashes and the depth of a bank. -/
def CTokenPoolBank.ceiling (bank : CTokenPoolBank) : Bytes × BigInt × Bytes :=
  (bank.mFinalHash, bank.mCurrentDepth, bank.mCurrentFinalHash)

theorem CTokenPoolBank.active_of_ne {bank : CTokenPoolBank} (h : bank.mStatus ≠ .depleted) :
    bank.mStatus = .active := by
  cases hstatus : bank.mStatus with
  | active => rfl
  | depleted => exact absurd hstatus h

/-! ### The view moves by itself -/

def BankView.movedTo (bank : BankView) (dimensionDepth depth : BigInt) (hash : Bytes) : BankView :=
  { bank with
    currentHash := hash
    currentDepth := depth
    status := if dimensionDepth ≤ depth then .depleted else bank.status }

/-- A view after the ceiling of the bank `id` was moved to `hash` at `depth`. -/
def PoolView.moveTo (view : PoolView) (id : ℕ) (depth : BigInt) (hash : Bytes) : PoolView :=
  let banks := view.banks.modify id fun bank => bank.movedTo view.dimensionDepth depth hash
  { view with
    banks := banks
    status := if view.dimensionDepth ≤ depth then
        if banks.all (fun bank => bank.status = .depleted) then .depleted else view.status
      else view.status }

namespace CTokenPool

/-- Moving a ceiling shows in the view as the move of the view. -/
theorem moveTo_view (pool : CTokenPool) (id : ℕ) (depth : BigInt) (hash : Bytes) :
    (pool.moveTo id depth hash).view = pool.view.moveTo id depth hash := by
  have hbanks : (pool.mBanks.modify id fun bank =>
        bank.movedTo pool.mDimensionDepth depth hash).map CTokenPoolBank.view =
      (pool.mBanks.map CTokenPoolBank.view).modify id fun bank =>
        bank.movedTo pool.mDimensionDepth depth hash :=
    ListUpdate.map_modify fun _ => rfl
  simp only [view, PoolView.moveTo, moveTo, statusFor, ← hbanks, List.all_map]
  rfl

variable {a b : CTokenPool}

theorem getBankById_view (h : a.view = b.view) (id : UInt64) :
    (a.getBankById id).map CTokenPoolBank.view = (b.getBankById id).map CTokenPoolBank.view := by
  rw [getBankById, getBankById, ← List.getElem?_map, ← List.getElem?_map]
  exact congrArg (fun view : PoolView => view.banks[id.toNat]?) h

/-- The bank at the other end of the channel. -/
theorem exists_bank_of_view {bank : CTokenPoolBank} {id : UInt64} (h : a.view = b.view)
    (hbank : a.getBankById id = some bank) :
    ∃ other, b.getBankById id = some other ∧ other.view = bank.view := by
  have hview := getBankById_view h id
  rw [hbank, Option.map_some] at hview
  exact Option.map_eq_some_iff.mp hview.symm

theorem getSingleTokenValue_view (h : a.view = b.view) :
    a.getSingleTokenValue = b.getSingleTokenValue := by
  simp only [view, PoolView.mk.injEq] at h
  obtain ⟨hdepth, hcount, htotal, _, _⟩ := h
  rw [getSingleTokenValue, getSingleTokenValue, hdepth, hcount, htotal]

theorem getValueLeft_view {bank other : CTokenPoolBank} (h : a.view = b.view)
    (hbank : bank.view = other.view) : bank.getValueLeft a = other.getValueLeft b := by
  have hdepth : a.mDimensionDepth = b.mDimensionDepth := congrArg PoolView.dimensionDepth h
  have hstatus : bank.mStatus = other.mStatus := congrArg BankView.status hbank
  have hcurrent : bank.mCurrentDepth = other.mCurrentDepth := congrArg BankView.currentDepth hbank
  rw [CTokenPoolBank.getValueLeft, CTokenPoolBank.getValueLeft, hdepth, hstatus, hcurrent,
    getSingleTokenValue_view h]

/-- Pools of one view have the same value left in every bank. -/
theorem getValueLeftInBank_view (h : a.view = b.view) (id : UInt64) :
    a.getValueLeftInBank id = b.getValueLeftInBank id := by
  have hview := getBankById_view h id
  rw [getValueLeftInBank, getValueLeftInBank]
  cases ha : a.getBankById id with
  | none =>
      rw [ha, Option.map_none] at hview
      rw [Option.map_eq_none_iff.mp hview.symm]
  | some bank =>
      obtain ⟨other, hother, hsame⟩ := exists_bank_of_view h ha
      rw [hother]
      exact getValueLeft_view h hsame.symm

end CTokenPool

/-! ### The issuer -/

/-- The hash at a depth of the chain over the seed of a bank. -/
def CTokenPoolBank.chainAt (bank : CTokenPoolBank) (cf : CCryptoFactory)
    (dimensionDepth depth : BigInt) : Bytes :=
  HashChain.link cf.getSHA2_256Vec bank.mSeedHash dimensionDepth.toNat depth.toNat

/-- A bank of an issuer, at index `id` of a pool: it knows the seed of its chain, and its ceiling
and its pre-cached hash, where there is one, lie on that chain. -/
structure CTokenPoolBank.Knows (cf : CCryptoFactory) (dimensionDepth : BigInt) (id : ℕ)
    (bank : CTokenPoolBank) : Prop where
  id_eq : bank.mID.toNat = id
  seed_length : bank.mSeedHash.length = 32
  depth_le : bank.mCurrentDepth ≤ dimensionDepth
  ceiling_eq : bank.getFinalHash true = bank.chainAt cf dimensionDepth bank.mCurrentDepth
  preCached : bank.mPreCachedSeedHash.length = 32 →
    bank.mPreCachedSeedHashDepth ≤ dimensionDepth ∧
      bank.mPreCachedSeedHash = bank.chainAt cf dimensionDepth bank.mPreCachedSeedHashDepth

/-- A pool that can issue tokens. It is out of use only once all of its banks are. -/
structure CTokenPool.Issues (cf : CCryptoFactory) (pool : CTokenPool) : Prop where
  knows : ∀ (id : ℕ) (bank : CTokenPoolBank), pool.mBanks[id]? = some bank →
    bank.Knows cf pool.mDimensionDepth id
  status : pool.mStatus = .active ∨ ∀ bank ∈ pool.mBanks, bank.mStatus = .depleted

theorem CTokenPoolBank.Knows.chainAt_length {cf : CCryptoFactory} {dimensionDepth : BigInt} {id : ℕ}
    {bank : CTokenPoolBank} (hknows : bank.Knows cf dimensionDepth id) (depth : BigInt) :
    (bank.chainAt cf dimensionDepth depth).length = 32 := by
  unfold CTokenPoolBank.chainAt HashChain.link
  cases dimensionDepth.toNat - depth.toNat with
  | zero => exact hknows.seed_length
  | succ n =>
      rw [Function.iterate_succ_apply']
      exact cf.getSHA2_256Vec_length _

/-- A value that can be paid out of a bank: as many tokens as it takes, rounded up, are left. -/
structure CTokenPool.Affords (pool : CTokenPool) (bank : CTokenPoolBank) (value depth : BigInt) :
    Prop where
  value_ne_zero : value ≠ 0
  value_le : value ≤ bank.getValueLeft pool
  active : bank.mStatus ≠ .depleted
  worth_pos : 0 < pool.getSingleTokenValue.toNat
  count_pos : 0 < value.toNat ⌈/⌉ pool.getSingleTokenValue.toNat
  depth_eq : depth = bank.mCurrentDepth + hashesToBeConsumed value pool.getSingleTokenValue
  depth_toNat : depth.toNat =
    bank.mCurrentDepth.toNat + value.toNat ⌈/⌉ pool.getSingleTokenValue.toNat
  depth_le : depth ≤ pool.mDimensionDepth

namespace CTokenPool

variable {cf : CCryptoFactory} {pool : CTokenPool} {bank : CTokenPoolBank} {value depth : BigInt}

theorem affords_of_le (hdepth : bank.mCurrentDepth ≤ pool.mDimensionDepth) (hpos : 0 < value)
    (hle : value ≤ bank.getValueLeft pool) :
    pool.Affords bank value
      (bank.mCurrentDepth + hashesToBeConsumed value pool.getSingleTokenValue) := by
  have hactive : bank.mStatus ≠ .depleted := by
    intro hdepleted
    rw [CTokenPoolBank.getValueLeft, if_pos hdepleted] at hle
    exact BitVec.not_lt.mpr hle hpos
  have hvalue : 0 < value.toNat := BitVec.lt_def.mp hpos
  have hbound : value.toNat ≤ pool.getSingleTokenValue.toNat *
      (pool.mDimensionDepth.toNat - bank.mCurrentDepth.toNat) :=
    CTokenPoolBank.getValueLeft_toNat hactive hdepth ▸ BitVec.le_def.mp hle
  have hs : 0 < pool.getSingleTokenValue.toNat := by
    refine Nat.pos_of_ne_zero fun h => ?_
    rw [h, Nat.zero_mul] at hbound
    omega
  have hcount : value.toNat ⌈/⌉ pool.getSingleTokenValue.toNat ≤
      pool.mDimensionDepth.toNat - bank.mCurrentDepth.toNat :=
    (ceilDiv_le_iff_le_mul hs).mpr hbound
  have hceil : value.toNat ⌈/⌉ pool.getSingleTokenValue.toNat =
      1 + (value.toNat - 1) / pool.getSingleTokenValue.toNat := by
    rw [Nat.ceilDiv_eq_add_pred_div, Nat.sub_add_comm hvalue, Nat.add_div_right _ hs,
      Nat.add_comm]
  have hfits : bank.mCurrentDepth.toNat + value.toNat ⌈/⌉ pool.getSingleTokenValue.toNat ≤
      pool.mDimensionDepth.toNat :=
    Nat.add_le_of_le_sub' (BitVec.le_def.mp hdepth) hcount
  have hhashes : (hashesToBeConsumed value pool.getSingleTokenValue).toNat =
      value.toNat ⌈/⌉ pool.getSingleTokenValue.toNat := by
    rw [hashesToBeConsumed, BitVec.toNat_ofNat, ← hceil]
    exact Nat.mod_eq_of_lt ((hcount.trans (Nat.sub_le _ _)).trans_lt pool.mDimensionDepth.isLt)
  have hsum : (bank.mCurrentDepth + hashesToBeConsumed value pool.getSingleTokenValue).toNat =
      bank.mCurrentDepth.toNat + value.toNat ⌈/⌉ pool.getSingleTokenValue.toNat := by
    rw [BitVec.toNat_add, hhashes]
    exact Nat.mod_eq_of_lt (hfits.trans_lt pool.mDimensionDepth.isLt)
  refine ⟨?_, hle, hactive, hs, ?_, rfl, hsum, ?_⟩
  · rintro rfl
    exact Nat.lt_irrefl 0 hvalue
  · rw [hceil]
    exact Nat.add_pos_left Nat.one_pos _
  · rw [BitVec.le_def, hsum]
    exact hfits

theorem Affords.deeper (h : pool.Affords bank value depth) : bank.mCurrentDepth < depth := by
  rw [BitVec.lt_def, h.depth_toNat]
  exact Nat.lt_add_of_pos_right h.count_pos

/-- From whichever hash the walk starts, it ends on the chain. -/
theorem getHashAtDepth_eq {id : ℕ} (hknows : bank.Knows cf pool.mDimensionDepth id)
    (hdeeper : bank.mCurrentDepth < depth) (hdepth : depth ≤ pool.mDimensionDepth)
    (updateState : Bool) :
    pool.getHashAtDepth cf id bank depth updateState =
      (bank.chainAt cf pool.mDimensionDepth depth,
        if updateState then
          pool.markUsed id bank depth (bank.chainAt cf pool.mDimensionDepth depth)
        else pool) := by
  have hzero : depth ≠ 0 := by
    rintro rfl
    exact Nat.not_lt_zero _ (BitVec.lt_def.mp hdeeper)
  have hrevealed : ¬(depth ≤ bank.mCurrentDepth ∧ bank.mCurrentFinalHash.length = 32) :=
    fun h => BitVec.not_lt.mpr h.1 hdeeper
  obtain ⟨start, hstart, hwalk⟩ : ∃ start, bank.walkStart pool depth = some start ∧
      cf.getSHA2_256Vec^[start.2.toNat - depth.toNat] start.1 =
        bank.chainAt cf pool.mDimensionDepth depth := by
    unfold CTokenPoolBank.walkStart
    rw [if_neg hrevealed]
    by_cases hcached : depth ≤ bank.mPreCachedSeedHashDepth ∧ bank.mPreCachedSeedHash.length = 32
    · obtain ⟨hle, hlink⟩ := hknows.preCached hcached.2
      refine ⟨_, if_pos hcached, ?_⟩
      rw [hlink]
      exact HashChain.walk _ _ (BitVec.le_def.mp hcached.1) (BitVec.le_def.mp hle)
    · rw [if_neg hcached, if_pos hknows.seed_length]
      exact ⟨_, rfl, rfl⟩
  unfold getHashAtDepth
  rw [if_neg hzero, if_neg (BitVec.not_lt.mpr hdepth), hstart]
  simp only [hwalk, hdeeper, and_true]

/-- Using up the tokens of a bank up to a depth moves its ceiling there. -/
theorem markUsed_eq {id : ℕ} {hash : Bytes} (hbank : pool.mBanks[id]? = some bank)
    (hactive : bank.mStatus ≠ .depleted) (hdepth : depth ≤ pool.mDimensionDepth)
    (hs : 0 < pool.getSingleTokenValue.toNat) :
    pool.markUsed id bank depth hash = pool.moveTo id depth hash := by
  let used := { bank with mCurrentDepth := depth, mCurrentFinalHash := hash }
  let moved := pool.modifyBank id fun _ => used
  have hleft : (used.getValueLeft moved).toNat = pool.getSingleTokenValue.toNat *
      (pool.mDimensionDepth.toNat - depth.toNat) :=
    @CTokenPoolBank.getValueLeft_toNat used moved hactive hdepth
  have hlast : used.getValueLeft moved = 0 ↔ pool.mDimensionDepth ≤ depth := by
    rw [← BitVec.toNat_inj, hleft, BitVec.le_def]
    simp only [BitVec.ofNat_eq_ofNat, BitVec.toNat_ofNat, Nat.zero_mod, Nat.mul_eq_zero,
      Nat.sub_eq_zero_iff_le, hs.ne', false_or]
  unfold markUsed
  by_cases hfull : pool.mDimensionDepth ≤ depth
  · rw [if_pos (hlast.mpr hfull), setBankStatus_modifyBank _ _ _ _ hbank hfull]
  · rw [if_neg (mt hlast.mp hfull), modifyBank_eq_moveTo _ _ _ _ hbank hfull]

theorem genTokenWorthValue_eq {id : ℕ} (hknows : bank.Knows cf pool.mDimensionDepth id)
    (h : pool.Affords bank value depth) (markUsed : Bool) :
    pool.genTokenWorthValue cf id bank value markUsed =
      ((bank.chainAt cf pool.mDimensionDepth depth,
          hashesToBeConsumed value pool.getSingleTokenValue),
        if markUsed then
          pool.markUsed id bank depth (bank.chainAt cf pool.mDimensionDepth depth)
        else pool) := by
  have hvalue : ¬(value = 0 ∨ bank.getValueLeft pool < value) :=
    not_or.mpr ⟨h.value_ne_zero, BitVec.not_lt.mpr h.value_le⟩
  have hworth : pool.getSingleTokenValue ≠ 0 := by
    intro hzero
    have hpos := h.worth_pos
    rw [hzero] at hpos
    exact Nat.lt_irrefl 0 hpos
  unfold genTokenWorthValue
  rw [if_neg hvalue, if_neg hworth]
  simp only [← h.depth_eq, getHashAtDepth_eq hknows h.deeper h.depth_le]

/-- The token a bank hands out for a value it can afford. -/
def tokenFor (pool : CTokenPool) (cf : CCryptoFactory) (bank : CTokenPoolBank)
    (value depth : BigInt) : CTransmissionToken :=
  { mBankIndex := bank.mID
    mValue := value
    mRevealedHash := bank.chainAt cf pool.mDimensionDepth depth
    mRevealedHashesCount := hashesToBeConsumed value pool.getSingleTokenValue
    mBankUsageDepth := depth
    mTokenPoolID := pool.mTokenPoolID }

theorem genTTWorthValue_eq {id : ℕ} (hbank : pool.mBanks[id]? = some bank)
    (hknows : bank.Knows cf pool.mDimensionDepth id) (h : pool.Affords bank value depth) :
    pool.genTTWorthValue cf id bank value true =
      (some (pool.tokenFor cf bank value depth),
        pool.moveTo id depth (bank.chainAt cf pool.mDimensionDepth depth)) := by
  have hmoved : (pool.mBanks.modify id fun bank' => bank'.movedTo pool.mDimensionDepth depth
        (bank.chainAt cf pool.mDimensionDepth depth))[id]? =
      some (bank.movedTo pool.mDimensionDepth depth
        (bank.chainAt cf pool.mDimensionDepth depth)) := by
    rw [List.getElem?_modify_eq, hbank]
    rfl
  have hlength : ¬(bank.chainAt cf pool.mDimensionDepth depth).length ≠ 32 :=
    not_not_intro (hknows.chainAt_length depth)
  unfold genTTWorthValue
  rw [genTokenWorthValue_eq hknows h]
  simp only [if_true, markUsed_eq hbank h.active h.depth_le h.worth_pos, moveTo_mBanks, hmoved,
    if_neg hlength]
  rfl

theorem Issues.active_of_bank (hissues : pool.Issues cf) (hbank : bank ∈ pool.mBanks)
    (hactive : bank.mStatus ≠ .depleted) : pool.mStatus = .active :=
  hissues.status.resolve_right fun hall => hactive (hall bank hbank)

/-- Handing out a token leaves an issuer that can go on. -/
theorem Issues.moveTo {id : ℕ} (hissues : pool.Issues cf) (hbank : pool.mBanks[id]? = some bank)
    (h : pool.Affords bank value depth) :
    (pool.moveTo id depth (bank.chainAt cf pool.mDimensionDepth depth)).Issues cf where
  knows := by
    intro k other hother
    rw [moveTo_mBanks] at hother
    by_cases hk : id = k
    · subst hk
      rw [List.getElem?_modify_eq, hbank] at hother
      obtain rfl := Option.some.inj hother
      have hknows := hissues.knows id bank hbank
      refine ⟨hknows.id_eq, hknows.seed_length, h.depth_le, ?_, hknows.preCached⟩
      rw [CTokenPoolBank.getFinalHash, if_neg]
      · rfl
      · exact not_or.mpr ⟨Bool.noConfusion, not_not_intro (hknows.chainAt_length depth)⟩
    · rw [List.getElem?_modify_ne _ _ hk] at hother
      exact hissues.knows k other hother
  status := by
    have hactive := hissues.active_of_bank (List.mem_of_getElem? hbank) h.active
    unfold CTokenPool.moveTo statusFor
    dsimp only
    split_ifs with hlast hall
    · exact Or.inr fun other hother => by simpa using List.all_eq_true.mp hall other hother
    · exact Or.inl hactive
    · exact Or.inl hactive

/-- A generated pool can issue tokens. -/
theorem generateDimensions_issues {generated : CTokenPool} {verify : Bool} {random : Bytes32}
    (hactive : pool.mStatus = .active)
    (h : pool.generateDimensions cf verify random = some generated) : generated.Issues cf := by
  rw [generateDimensions_eq pool cf verify h]
  refine ⟨fun id bank hbank => ?_, Or.inl hactive⟩
  obtain ⟨hk, rfl⟩ := List.getElem?_eq_some_iff.mp hbank
  rw [List.length_map, List.length_range] at hk
  rw [List.getElem_map, List.getElem_range]
  refine ⟨?_, seedingLoop_length cf (Nat.zero_le _) (by omega) _, Nat.zero_le _, rfl, ?_⟩
  · exact Nat.mod_eq_of_lt (hk.trans (UInt64.toNat_lt _))
  · exact fun hlength => absurd hlength (Nat.zero_ne_add_one 31)

/-! ### The recipient -/

/-- Whoever has the issuer's view accepts the token the issuer hands out. -/
theorem Affords.accepted {recipient : CTokenPool} {bankID : UInt64} (hissues : pool.Issues cf)
    (hview : pool.view = recipient.view) (hbank : pool.getBankById bankID = some bank)
    (h : pool.Affords bank value depth) :
    ∃ other, recipient.Accepts cf (pool.tokenFor cf bank value depth) other ∧
      other.mCurrentDepth = bank.mCurrentDepth := by
  have hentry : pool.mBanks[bankID.toNat]? = some bank := hbank
  have hknows := hissues.knows _ _ hentry
  have hid : bank.mID = bankID := UInt64.toNat_inj.mp hknows.id_eq
  obtain ⟨other, hother, hsame⟩ := exists_bank_of_view hview hbank
  have hcurrent : other.mCurrentDepth = bank.mCurrentDepth := congrArg BankView.currentDepth hsame
  have hstatus : other.mStatus = bank.mStatus := congrArg BankView.status hsame
  have hceiling : other.getFinalHash true = bank.getFinalHash true := by
    unfold CTokenPoolBank.getFinalHash
    rw [show other.mFinalHash = bank.mFinalHash from congrArg BankView.finalHash hsame,
      show other.mCurrentFinalHash = bank.mCurrentFinalHash from
        congrArg BankView.currentHash hsame]
  have htotal : value ≤ recipient.getTotalValue := by
    have hleft := h.value_le
    have hbound := CTokenPoolBank.getValueLeft_toNat h.active hknows.depth_le
    rw [BitVec.le_def] at hleft ⊢
    rw [hbound] at hleft
    calc value.toNat
        ≤ pool.getSingleTokenValue.toNat *
            (pool.mDimensionDepth.toNat - bank.mCurrentDepth.toNat) := hleft
      _ ≤ pool.getSingleTokenValue.toNat * pool.mDimensionDepth.toNat :=
          Nat.mul_le_mul_left _ (Nat.sub_le _ _)
      _ = pool.mDimensionDepth.toNat * pool.getSingleTokenValue.toNat := Nat.mul_comm _ _
      _ ≤ pool.mTotalValue.toNat := pool.one_bank_le_total
      _ = recipient.getTotalValue.toNat := by
          rw [show pool.mTotalValue = recipient.getTotalValue from
            congrArg PoolView.totalValue hview]
  refine ⟨other, ⟨?_, ?_, ?_, htotal, ?_, ?_, ?_, ?_, ?_, ?_, ?_, ?_⟩, hcurrent⟩
  · rw [← show pool.mStatus = recipient.mStatus from congrArg PoolView.status hview]
    exact hissues.active_of_bank (List.mem_of_getElem? hentry) h.active
  · exact fun hsig => absurd hsig.2.1 (Nat.lt_irrefl 0)
  · intro hcount
    have hdeeper := h.deeper
    have hnone : depth = bank.mCurrentDepth := by
      rw [h.depth_eq, show hashesToBeConsumed value pool.getSingleTokenValue = 0 from hcount]
      exact BitVec.add_zero _
    rw [hnone] at hdeeper
    exact BitVec.lt_irrefl _ hdeeper
  · rw [show (pool.tokenFor cf bank value depth).mBankIndex = bankID from hid]
    exact hother
  · rw [hstatus]
    exact h.active
  · rw [← getValueLeft_view hview hsame.symm]
    exact h.value_le
  · rw [hcurrent]
    exact BitVec.le_of_lt h.deeper
  · intro hrepeat
    rw [hcurrent] at hrepeat
    exact BitVec.lt_irrefl _ (hrepeat.1 ▸ h.deeper)
  · exact hknows.chainAt_length depth
  · rw [hceiling, hknows.ceiling_eq]
    exact hknows.chainAt_length _
  · rw [hceiling, hknows.ceiling_eq, hcurrent]
    exact HashChain.walk _ _ (BitVec.le_def.mp (BitVec.le_of_lt h.deeper))
      (BitVec.le_def.mp h.depth_le)

end CTokenPool

/-! ### Payments -/

/-- The two ends of a state-less channel. -/
structure Channel where
  issuer : CTokenPool
  recipient : CTokenPool

structure Payment where
  bankID : UInt64
  value : BigInt

namespace Channel

variable (cf : CCryptoFactory)

/-- One payment: the token of `getTTWorthValue` with `markUsed` set, delivered to `validateTT`. -/
def pay (ch : Channel) (payment : Payment) : Option TTAnswer × Channel :=
  let issued := ch.issuer.getTTWorthValue cf payment.bankID payment.value true
  match issued.1 with
  | none => (none, { issuer := issued.2, recipient := ch.recipient })
  | some token =>
      let received := ch.recipient.validateTT cf token true
      (some received.1, { issuer := issued.2, recipient := received.2 })

/-- A payment the bank still has the value for. -/
def Affordable (ch : Channel) (payment : Payment) : Prop :=
  0 < payment.value ∧ payment.value ≤ ch.issuer.getValueLeftInBank payment.bankID

/-- Both ends see the same depth, hashes and status of every bank and the same pool, and so have the
same value left in every bank. -/
structure Agrees (ch : Channel) : Prop where
  view_eq : ch.issuer.view = ch.recipient.view
  left_eq : ∀ id, ch.issuer.getValueLeftInBank id = ch.recipient.getValueLeftInBank id

/-- The value the recipient must see in a payment: its value in tokens, rounded up. -/
def roundedUp (ch : Channel) (value : BigInt) : ℕ :=
  ch.issuer.getSingleTokenValue.toNat * (value.toNat ⌈/⌉ ch.issuer.getSingleTokenValue.toNat)

variable {cf}

theorem agrees_of_view {ch : Channel} (h : ch.issuer.view = ch.recipient.view) : ch.Agrees :=
  ⟨h, CTokenPool.getValueLeftInBank_view h⟩

/-- The bank an affordable payment is made from. -/
theorem Affordable.affords {ch : Channel} {payment : Payment} (hpay : ch.Affordable payment)
    (hissues : ch.issuer.Issues cf) :
    ∃ bank, ch.issuer.getBankById payment.bankID = some bank ∧
      bank.Knows cf ch.issuer.mDimensionDepth payment.bankID.toNat ∧
      ch.issuer.Affords bank payment.value
        (bank.mCurrentDepth + hashesToBeConsumed payment.value ch.issuer.getSingleTokenValue) := by
  obtain ⟨hpos, hle⟩ := hpay
  unfold CTokenPool.getValueLeftInBank at hle
  cases hbank : ch.issuer.getBankById payment.bankID with
  | none =>
      rw [hbank] at hle
      exact absurd hpos (BitVec.not_lt.mpr hle)
  | some bank =>
      rw [hbank] at hle
      have hknows := hissues.knows _ _ hbank
      exact ⟨bank, rfl, hknows, CTokenPool.affords_of_le hknows.depth_le hpos hle⟩

/-- One affordable payment moves both ends the same way. -/
theorem pay_step {ch : Channel} {payment : Payment} (hissues : ch.issuer.Issues cf)
    (hview : ch.issuer.view = ch.recipient.view) (hpay : ch.Affordable payment) :
    (∃ answer, (ch.pay cf payment).1 = some answer ∧ answer.isValid = true ∧
      answer.worthValue.toNat = ch.roundedUp payment.value) ∧
    (ch.pay cf payment).2.issuer.Issues cf ∧
    (ch.pay cf payment).2.issuer.view = (ch.pay cf payment).2.recipient.view := by
  obtain ⟨bank, hbank, hknows, hafford⟩ := hpay.affords hissues
  have hentry : ch.issuer.mBanks[payment.bankID.toNat]? = some bank := hbank
  obtain ⟨other, haccepts, hcurrent⟩ := hafford.accepted hissues hview hbank
  have hwithin : bank.mCurrentDepth + hashesToBeConsumed payment.value
      ch.issuer.getSingleTokenValue ≤ ch.recipient.mDimensionDepth := by
    rw [← show ch.issuer.mDimensionDepth = ch.recipient.mDimensionDepth from
      congrArg PoolView.dimensionDepth hview]
    exact hafford.depth_le
  have hpaid := ch.recipient.worth_toNat haccepts.depth_le hwithin
  simp only [pay, CTokenPool.getTTWorthValue, hentry,
    CTokenPool.genTTWorthValue_eq hentry hknows hafford, haccepts.validateTT_eq, if_true]
  refine ⟨⟨_, rfl, rfl, ?_⟩, hissues.moveTo hentry hafford, ?_⟩
  · refine hpaid.trans ?_
    rw [hcurrent, ← CTokenPool.getSingleTokenValue_view hview, roundedUp]
    congr 1
    exact Nat.sub_eq_of_eq_add' hafford.depth_toNat
  · rw [CTokenPool.moveTo_view, CTokenPool.moveTo_view, ← hview,
      show (ch.issuer.tokenFor cf bank payment.value _).mBankIndex.toNat =
        payment.bankID.toNat from hknows.id_eq]
    rfl

/-- A payment that is accepted for its value rounded up to tokens and leaves both ends in agreement. -/
def PaysInStep (cf : CCryptoFactory) (ch : Channel) (payment : Payment) : Prop :=
  (∃ answer, (ch.pay cf payment).1 = some answer ∧ answer.isValid = true ∧
    answer.worthValue.toNat = ch.roundedUp payment.value) ∧
  (ch.pay cf payment).2.Agrees

/-- The recipient has the pool of the issuer: its dimensions, its value, and of every bank the same
final hash, depth and current hash. Nothing is said of its secrets and of any status. -/
structure Copied (ch : Channel) : Prop where
  depth_eq : ch.issuer.mDimensionDepth = ch.recipient.mDimensionDepth
  count_eq : ch.issuer.mDimensionsCount = ch.recipient.mDimensionsCount
  total_eq : ch.issuer.mTotalValue = ch.recipient.mTotalValue
  banks_eq : ch.issuer.mBanks.map CTokenPoolBank.ceiling =
    ch.recipient.mBanks.map CTokenPoolBank.ceiling

/-- Both ends have the same status of the pool and of every bank. -/
structure SameStatuses (ch : Channel) : Prop where
  pool_eq : ch.issuer.mStatus = ch.recipient.mStatus
  banks_eq : ch.issuer.mBanks.map CTokenPoolBank.mStatus =
    ch.recipient.mBanks.map CTokenPoolBank.mStatus

/-- A copy with the statuses of the issuer has its whole view. -/
theorem Copied.view_eq {ch : Channel} (hcopied : ch.Copied) (hsame : ch.SameStatuses) :
    ch.issuer.view = ch.recipient.view := by
  have hbanks : ch.issuer.mBanks.map CTokenPoolBank.view =
      ch.recipient.mBanks.map CTokenPoolBank.view := by
    refine List.ext_getElem? fun id => ?_
    have hceiling := congrArg (·[id]?) hcopied.banks_eq
    have hstatus := congrArg (·[id]?) hsame.banks_eq
    simp only [List.getElem?_map] at hceiling hstatus ⊢
    cases hissuer : ch.issuer.mBanks[id]? with
    | none =>
        rw [hissuer, Option.map_none] at hceiling
        rw [Option.map_eq_none_iff.mp hceiling.symm]
    | some bank =>
        rw [hissuer, Option.map_some] at hceiling hstatus
        obtain ⟨other, hother, hsees⟩ := Option.map_eq_some_iff.mp hceiling.symm
        rw [hother, Option.map_some, Option.some_inj] at hstatus
        simp only [CTokenPoolBank.ceiling, Prod.mk.injEq] at hsees
        obtain ⟨hfinal, hdepth, hcurrent⟩ := hsees
        rw [hother, Option.map_some, Option.map_some, CTokenPoolBank.view, CTokenPoolBank.view,
          hfinal, hdepth, hcurrent, hstatus]
  simp only [CTokenPool.view, hcopied.depth_eq, hcopied.count_eq, hcopied.total_eq, hsame.pool_eq,
    hbanks]

/-- Only a recipient with the statuses of the issuer is in agreement with it after a payment: the
payment touches the status of one bank, and of that bank only once it was accepted. -/
theorem PaysInStep.sameStatuses {ch : Channel} {payment : Payment} (hissues : ch.issuer.Issues cf)
    (hpay : ch.Affordable payment) (hstep : ch.PaysInStep cf payment) : ch.SameStatuses := by
  obtain ⟨bank, hbank, hknows, hafford⟩ := hpay.affords hissues
  have hentry : ch.issuer.mBanks[payment.bankID.toNat]? = some bank := hbank
  have hissuer := hissues.active_of_bank (List.mem_of_getElem? hentry) hafford.active
  let token := ch.issuer.tokenFor cf bank payment.value
    (bank.mCurrentDepth + hashesToBeConsumed payment.value ch.issuer.getSingleTokenValue)
  have hid : token.mBankIndex.toNat = payment.bankID.toNat := hknows.id_eq
  have hpayment : ch.pay cf payment =
      (some (ch.recipient.receive cf token).1,
        { issuer := ch.issuer.moveTo payment.bankID.toNat token.mBankUsageDepth token.mRevealedHash
          recipient := (ch.recipient.receive cf token).2 }) := by
    simp only [pay, CTokenPool.getTTWorthValue, hentry,
      CTokenPool.genTTWorthValue_eq hentry hknows hafford]
    rfl
  obtain ⟨⟨answer, hanswer, -, hworth⟩, hagrees⟩ := hstep
  have hpaid : 0 < ch.roundedUp payment.value := Nat.mul_pos hafford.worth_pos hafford.count_pos
  rcases ch.recipient.receive_cases cf token with ⟨other, haccepts, hreceive⟩ | ⟨-, isValid, hreceive⟩
  · have hview := hagrees.view_eq
    rw [hpayment, hreceive] at hview
    refine ⟨hissuer.trans haccepts.pool_active.symm, List.ext_getElem? fun id => ?_⟩
    have hbanks := congrArg (fun view : PoolView => view.banks[id]?) hview
    simp only [CTokenPool.view, CTokenPool.moveTo_mBanks, List.getElem?_map, hid] at hbanks ⊢
    by_cases hk : payment.bankID.toNat = id
    · -- the bank that was paid: both ends found it in use
      subst hk
      have hother : ch.recipient.mBanks[payment.bankID.toNat]? = some other :=
        hid ▸ haccepts.bank_eq
      rw [hentry, hother, Option.map_some, Option.map_some,
        CTokenPoolBank.active_of_ne hafford.active, CTokenPoolBank.active_of_ne haccepts.bank_active]
    · rw [List.getElem?_modify_ne _ _ hk, List.getElem?_modify_ne _ _ hk] at hbanks
      have hstatus := congrArg (Option.map BankView.status) hbanks
      rwa [Option.map_map, Option.map_map] at hstatus
  · -- a refused token is worth nothing
    rw [hpayment, hreceive] at hanswer
    obtain rfl := Option.some.inj hanswer
    rw [← hworth] at hpaid
    exact absurd hpaid (Nat.lt_irrefl 0)

/-- **A run of affordable payments to a recipient with a copy of the pool is accepted for the values
rounded up to tokens, with both ends in agreement after every payment, exactly if both ends have the
same statuses when the first payment is made.** -/
theorem payments_agree_iff {ch : Channel} {payments : List Payment} (hissues : ch.issuer.Issues cf)
    (hcopied : ch.Copied) (hrun : Machine.EveryStep (pay cf) Affordable ch payments) :
    Machine.EveryStep (pay cf) (PaysInStep cf) ch payments ↔ payments = [] ∨ ch.SameStatuses := by
  constructor
  · intro hpays
    cases payments with
    | nil => exact Or.inl rfl
    | cons payment payments =>
        exact Or.inr (hpays.1.sameStatuses hissues hrun.1)
  · rintro (rfl | hsame)
    · trivial
    · have hstep : ∀ (ch : Channel) (payment : Payment),
          (ch.issuer.Issues cf ∧ ch.issuer.view = ch.recipient.view) → ch.Affordable payment →
          ch.PaysInStep cf payment ∧
          ((ch.pay cf payment).2.issuer.Issues cf ∧
            (ch.pay cf payment).2.issuer.view = (ch.pay cf payment).2.recipient.view) := by
        rintro ch payment ⟨hissues, hview⟩ hpay
        obtain ⟨hpaid, hnext, hsame⟩ := pay_step hissues hview hpay
        exact ⟨⟨hpaid, agrees_of_view hsame⟩, hnext, hsame⟩
      exact (Machine.everyStep_of_invariant hstep ⟨hissues, hcopied.view_eq hsame⟩ hrun).1

end Channel

/-- A recipient's copy of `oneTokenGenerated`, without its secrets. -/
def oneTokenCopy : CTokenPool :=
  { oneTokenPool with mBanks := [{ mID := 0, mFinalHash := (countingBytes 3).val }] }

/-- The only token of a pool is paid to a recipient without secrets. -/
theorem payments_agree_iff_oneToken :
    Machine.EveryStep (Channel.pay countingHash) (Channel.PaysInStep countingHash)
      ⟨oneTokenGenerated, oneTokenCopy⟩ [⟨0, 1⟩] ↔
    [(⟨0, 1⟩ : Payment)] = [] ∨ Channel.SameStatuses ⟨oneTokenGenerated, oneTokenCopy⟩ :=
  Channel.payments_agree_iff (CTokenPool.generateDimensions_issues rfl oneTokenPool_generated)
    ⟨rfl, rfl, rfl, rfl⟩ ⟨⟨by decide, by decide⟩, trivial⟩

/-- A pool of two banks with one token each, before its dimensions are generated. -/
def twoBankPool : CTokenPool :=
  { mDimensionsCount := 2, mDimensionDepth := 1, mTotalValue := 2 }

/-- `twoBankPool` once it was generated from zeros and the token of its first bank was paid out. -/
def twoBankPaid : CTokenPool :=
  { twoBankPool with
    mMasterSeedHash := (countingBytes 0).val
    mBanks := [
      { mID := 0, mFinalHash := (countingBytes 3).val, mSeedHash := (countingBytes 2).val
        mCurrentDepth := 1, mCurrentFinalHash := (countingBytes 2).val, mStatus := .depleted },
      { mID := 1, mFinalHash := (countingBytes 4).val, mSeedHash := (countingBytes 3).val }] }

/-- `twoBankPaid` as a recipient reads it from its packed data. -/
def twoBankCopy : CTokenPool :=
  { twoBankPool with
    mBanks := [
      { mID := 0, mFinalHash := (countingBytes 3).val
        mCurrentDepth := 1, mCurrentFinalHash := (countingBytes 2).val },
      { mID := 1, mFinalHash := (countingBytes 4).val }] }

theorem twoBankPaid_issues : twoBankPaid.Issues countingHash := by
  refine ⟨fun id bank hbank => ?_, Or.inl rfl⟩
  match id with
  | 0 =>
      obtain rfl := Option.some.inj hbank
      exact ⟨rfl, rfl, by decide, by decide, fun hlength => absurd hlength (by decide)⟩
  | 1 =>
      obtain rfl := Option.some.inj hbank
      exact ⟨rfl, rfl, by decide, by decide, fun hlength => absurd hlength (by decide)⟩
  | _ + 2 => cases hbank

/-- The copy has the hashes and depths of its issuer, but the bank that was used up comes back in
use: the token of the other bank uses up the pool of the issuer and not the copy. -/
theorem payments_agree_fails :
    ((twoBankPool.generateDimensions countingHash true (countingBytes 0)).map fun pool =>
      (pool.getTTWorthValue countingHash 0 1 true).2) = some twoBankPaid ∧
    CTokenPool.instantiate countingHash (countingBytes 0) (twoBankPaid.getPackedData false) [] =
      some twoBankCopy ∧
    twoBankPaid.Issues countingHash ∧ Channel.Copied ⟨twoBankPaid, twoBankCopy⟩ ∧
    Machine.EveryStep (Channel.pay countingHash) Channel.Affordable
      ⟨twoBankPaid, twoBankCopy⟩ [⟨1, 1⟩] ∧
    ¬Machine.EveryStep (Channel.pay countingHash) (Channel.PaysInStep countingHash)
      ⟨twoBankPaid, twoBankCopy⟩ [⟨1, 1⟩] := by
  refine ⟨by decide, by decide, twoBankPaid_issues, ⟨rfl, rfl, rfl, rfl⟩,
    ⟨⟨by decide, by decide⟩, trivial⟩, fun hpays => ?_⟩
  have hstatus := congrArg PoolView.status hpays.1.2.view_eq
  exact absurd hstatus (by decide)

end Gridnet
