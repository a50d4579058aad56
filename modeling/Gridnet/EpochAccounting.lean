import Mathlib.Algebra.Order.BigOperators.Group.List
import Gridnet.Balances
import Gridnet.RewardFlow
import Gridnet.RewardPayment
import Gridnet.VerifiableRewards

/-! What the blocks of an epoch pay out. A data block pays all that was verified of it and its share of that once
more, and the next key block a share of the sum: more than there was, as soon as there are fees to speak of. -/

namespace Gridnet

variable {Trie : Type}

/-! ### Accepted blocks -/

/-- A block with what `endFlow` has at hand for it: `base` is what was verified before the epochs' processing, the
fees and the rewards of proofs of fraud, and `total` the whole reward. -/
structure EpochBlock (Trie : Type) where
  context : RewardContext Trie
  live : LiveBlock Trie
  block : ReceiptedBlock
  txs : ProcessedTransactions
  base : BigInt
  total : BigInt

namespace EpochBlock

/-- The dry pass of `endFlow` accepts the block. -/
structure Accepted (settings : RewardSettings Trie) (b : EpochBlock Trie) : Prop where
  settings : b.context.settings = settings
  kind : b.block.isKeyBlock = b.live.mBlockHeader.isKeyBlock
  passed : ∃ fuel validated, validateReward b.context fuel b.live b.block b.txs = some (.ok validated) ∧
    dryPass b.context fuel b.live b.block b.txs = some (.ok (true, b.total)) ∧
    validated.flow.toRewardState.rewardValidatedUpToNow = b.base

variable {settings : RewardSettings Trie} {b : EpochBlock Trie}

/-- The dry pass succeeds with the total that was validated. -/
theorem validated_of_dryPass {context : RewardContext Trie} {fuel : ℕ} {live : LiveBlock Trie} {block : ReceiptedBlock}
    {txs : ProcessedTransactions} {validated : ValidatedReward} {total : BigInt}
    (hvalidated : validateReward context fuel live block txs = some (.ok validated))
    (hpass : dryPass context fuel live block txs = some (.ok (true, total))) :
    validated.success = true ∧ validated.rewardUptilNow = total := by
  unfold dryPass at hpass
  split_ifs at hpass with hanswer
  · cases hpass
  · rw [hvalidated] at hpass
    dsimp only at hpass
    unfold onResult at hpass
    split at hpass
    case h_1 => cases hpass
    case h_2 =>
      dsimp only at hpass
      split_ifs at hpass
      · cases hpass
      · obtain ⟨hsuccess, htotal⟩ := Prod.mk.inj (Except.ok.inj (Option.some.inj hpass))
        exact ⟨((Bool.and_eq_true _ _).mp hsuccess).1, htotal⟩

/-- What was validated came of the epochs' processing. -/
theorem flowEpochs_of_validateReward {context : RewardContext Trie} {fuel : ℕ} {live : LiveBlock Trie}
    {block : ReceiptedBlock} {txs : ProcessedTransactions} {validated : ValidatedReward}
    (hvalidated : validateReward context fuel live block txs = some (.ok validated))
    (hsuccess : validated.success = true) :
    flowEpochs context fuel live block.isKeyBlock validated.flow.toRewardState.rewardValidatedUpToNow =
      some (.ok (true, validated.rewardUptilNow)) := by
  unfold validateReward at hvalidated
  dsimp only at hvalidated
  unfold onResult at hvalidated
  split at hvalidated
  case h_1 => cases hvalidated
  case h_2 =>
    dsimp only at hvalidated
    split at hvalidated
    case h_1 => cases hvalidated
    case h_2 => cases hvalidated
    case h_3 hepochs =>
      cases hvalidated
      obtain ⟨-, rfl⟩ := (Bool.and_eq_true _ _).mp hsuccess
      exact hepochs

theorem Accepted.epochs (haccepted : b.Accepted settings) :
    ∃ fuel, flowEpochs b.context fuel b.live b.live.mBlockHeader.isKeyBlock b.base = some (.ok (true, b.total)) := by
  obtain ⟨fuel, validated, hvalidated, hpass, hbase⟩ := haccepted.passed
  obtain ⟨hsuccess, htotal⟩ := validated_of_dryPass hvalidated hpass
  have hepochs := flowEpochs_of_validateReward hvalidated hsuccess
  rw [haccepted.kind, hbase, htotal] at hepochs
  exact ⟨fuel, hepochs⟩

/-- What is verified before the epochs' processing: the fees, and the rewards of the proofs of fraud that were valid. -/
theorem Accepted.base_eq (haccepted : b.Accepted settings) :
    ∃ n ≤ b.block.verifiables.countP (·.mVerifiableType = .proofOfFraud),
      b.base = b.txs.validatedFees + BitVec.ofNat 256 n * b.context.S.getRewardForPoFProcessing := by
  obtain ⟨fuel, validated, hvalidated, -, hbase⟩ := haccepted.passed
  rw [← hbase]
  unfold validateReward at hvalidated
  dsimp only at hvalidated
  unfold onResult at hvalidated
  split at hvalidated
  case h_1 => cases hvalidated
  case h_2 hrun =>
    dsimp only at hvalidated
    split at hvalidated
    case h_1 => cases hvalidated
    case h_2 => cases hvalidated
    case h_3 =>
      cases hvalidated
      obtain ⟨n, hn, hreward⟩ := verifiableLoop_reward hrun
      refine ⟨n, hn.trans ?_, hreward⟩
      calc (inFlowVerifiables b.block).dropLast.countP (·.mVerifiableType = .proofOfFraud)
          ≤ (inFlowVerifiables b.block).countP (·.mVerifiableType = .proofOfFraud) :=
            (List.dropLast_sublist _).countP_le
        _ = b.block.verifiables.countP (·.mVerifiableType = .proofOfFraud) := List.countP_map

/-- A data block pays what was verified of it, and 40% of that once more. -/
theorem Accepted.total_data (haccepted : b.Accepted settings) (hdata : b.live.mBlockHeader.isKeyBlock = false) :
    b.total = b.base + settings.partialReward .ALeader b.base := by
  obtain ⟨fuel, hepochs⟩ := haccepted.epochs
  rw [hdata] at hepochs
  have hown : b.context.settings.ownPool b.live.mBlockHeader b.base = b.base := by
    rw [RewardSettings.ownPool, hdata, if_neg Bool.false_ne_true]
  have hcall : flowEpochs b.context fuel b.live false b.base =
      some (.ok (true, b.base + b.context.settings.partialReward .ALeader
        (b.context.settings.ownPool b.live.mBlockHeader b.base))) := rfl
  rw [hcall, hown, haccepted.settings] at hepochs
  exact (Prod.mk.inj (Except.ok.inj (Option.some.inj hepochs))).2.symm

end EpochBlock

/-! ### Epochs -/

/-- The blocks of an epoch, all of them accepted: a key block, the data blocks after it, the newest first, and the
next key block. The header of a data block records its total reward. -/
structure Epoch (settings : RewardSettings Trie) where
  key : EpochBlock Trie
  dataBlocks : List (EpochBlock Trie)
  next : EpochBlock Trie
  keyAccepted : key.Accepted settings
  dataAccepted : ∀ b ∈ dataBlocks, b.Accepted settings
  nextAccepted : next.Accepted settings
  path : EpochPath next.context.bm next.live (dataBlocks.map EpochBlock.live) key.live
  nextKey : next.live.mBlockHeader.isKeyBlock = true
  later : next.live.isGenesis = false
  recorded : ∀ b ∈ dataBlocks, settings.getTotalBlockReward b.live.mBlockHeader = b.total

theorem EpochPath.data {bm : BlockLookup Trie} {current keyBlock : LiveBlock Trie}
    {dataBlocks : List (LiveBlock Trie)} (hpath : EpochPath bm current dataBlocks keyBlock) :
    ∀ block ∈ dataBlocks, block.mBlockHeader.isKeyBlock = false := by
  induction hpath with
  | keyBlock _ _ => exact nofun
  | dataBlock _ hdata _ ih => exact List.forall_mem_cons.mpr ⟨hdata, ih⟩

/-- The leaders of an epoch share in hundredths. -/
structure RewardSettings.Documented (settings : RewardSettings Trie) : Prop where
  aLeader : settings.getEpochRewardRatio .ALeader = 40
  bLeader : settings.getEpochRewardRatio .BLeader = 60

namespace Epoch

variable {settings : RewardSettings Trie} (e : Epoch settings)

def coinbase : BigInt := settings.getCoinbaseRewardForKeyHeight e.key.live.mBlockHeader.getKeyHeight

/-- What the key block pays for its own epoch. -/
def ownShare : BigInt := settings.partialReward .ALeader e.coinbase

/-- What the next key block pays for the epoch. -/
def pastShare : BigInt :=
  settings.partialReward .BLeader (settings.poolAlong 0 (e.dataBlocks.map EpochBlock.live) e.key.live)

/-- The fees of the data blocks, and what their proofs of fraud add. -/
def fees : ℕ := (e.dataBlocks.map fun b => b.base.toNat).sum

/-- All that is paid out for the epoch beside the fees of the key block itself. -/
def paid : ℕ := e.ownShare.toNat + (e.dataBlocks.map fun b => b.total.toNat).sum + e.pastShare.toNat

/-- No more is paid out than there is. -/
def Bounded : Prop := e.paid ≤ e.coinbase.toNat + e.fees

/-- The fees are lost in the rounding. -/
def Small : Prop := e.fees ≤ 1 ∨ e.fees = 2 ∧ e.coinbase.toNat % 5 ≠ 0 ∧ e.coinbase.toNat % 5 ≠ 3

/-- No sum and no product wraps. -/
def Fits : Prop := (e.coinbase.toNat + 2 * e.fees) * 60 < 2 ^ 256

/-! ### The shares as numbers -/

theorem partialReward_le (settings : RewardSettings Trie) (mode : eEpochRewardCalculationMode) (rewardPool : BigInt) :
    (settings.partialReward mode rewardPool).toNat ≤ rewardPool.toNat * settings.getEpochRewardRatio mode / 100 :=
  share_toNat_le rewardPool _ 100

theorem partialReward_of_lt {mode : eEpochRewardCalculationMode} {rewardPool : BigInt} {ratio : ℕ}
    (hratio : settings.getEpochRewardRatio mode = ratio) (hsmall : ratio < 2 ^ 256)
    (hfits : rewardPool.toNat * ratio < 2 ^ 256) :
    (settings.partialReward mode rewardPool).toNat = rewardPool.toNat * ratio / 100 := by
  subst hratio
  exact share_toNat_of_lt hsmall hfits 100

/-- The pool of the past epoch is the sum of the totals and the coinbase reward. -/
theorem pool_eq : settings.poolAlong 0 (e.dataBlocks.map EpochBlock.live) e.key.live =
    BitVec.ofNat 256 ((e.dataBlocks.map fun b => b.total.toNat).sum + e.coinbase.toNat) := by
  have hfold : ∀ (blocks : List (EpochBlock Trie)) (pool : ℕ),
      (∀ b ∈ blocks, settings.getTotalBlockReward b.live.mBlockHeader = b.total) →
      (blocks.map EpochBlock.live).foldl (fun pool block => pool + settings.getTotalBlockReward block.mBlockHeader)
        (BitVec.ofNat 256 pool) = BitVec.ofNat 256 (pool + (blocks.map fun b => b.total.toNat).sum) := by
    intro blocks
    induction blocks with
    | nil => exact fun pool _ => rfl
    | cons b blocks ih =>
        intro pool hrecorded
        obtain ⟨hb, hrecorded⟩ := List.forall_mem_cons.mp hrecorded
        have hadd : BitVec.ofNat 256 pool + b.total = BitVec.ofNat 256 (pool + b.total.toNat) := by
          rw [BitVec.ofNat_add, BitVec.ofNat_toNat, BitVec.setWidth_eq]
        rw [List.map_cons, List.foldl_cons, hb, hadd, ih _ hrecorded, List.map_cons, List.sum_cons, Nat.add_assoc]
  have hcoinbase : settings.getCoinbaseRewardForKeyHeight e.key.live.mBlockHeader.getKeyHeight =
      BitVec.ofNat 256 e.coinbase.toNat := by
    rw [BitVec.ofNat_toNat, BitVec.setWidth_eq]
    rfl
  have hzero : (0 : BigInt) = BitVec.ofNat 256 0 := rfl
  rw [RewardSettings.poolAlong, hzero, hfold _ _ e.recorded, hcoinbase, ← BitVec.ofNat_add, Nat.zero_add]

theorem base_le_fees {b : EpochBlock Trie} (hb : b ∈ e.dataBlocks) : b.base.toNat ≤ e.fees :=
  List.single_le_sum (fun _ _ => Nat.zero_le _) _ (List.mem_map_of_mem hb)

/-- The total of a data block, where nothing wraps. -/
theorem total_toNat (hsettings : settings.Documented) (hroom : e.fees * 40 < 2 ^ 255) {b : EpochBlock Trie}
    (hb : b ∈ e.dataBlocks) : b.total.toNat = b.base.toNat + b.base.toNat * 40 / 100 := by
  have hbase := e.base_le_fees hb
  have hshare : (settings.partialReward .ALeader b.base).toNat = _ :=
    partialReward_of_lt hsettings.aLeader (by decide) (by omega)
  have hdata := e.path.data b.live (List.mem_map_of_mem hb)
  rw [(e.dataAccepted b hb).total_data hdata, BitVec.toNat_add_of_lt (by omega), hshare]

theorem sum_total_bounds (hsettings : settings.Documented) (hroom : e.fees * 40 < 2 ^ 255) :
    e.fees ≤ (e.dataBlocks.map fun b => b.total.toNat).sum ∧
      (e.dataBlocks.map fun b => b.total.toNat).sum ≤ 2 * e.fees := by
  have hdouble : 2 * e.fees = (e.dataBlocks.map fun b => 2 * b.base.toNat).sum :=
    (List.sum_map_mul_left ..).symm
  constructor
  · apply List.sum_le_sum
    intro b hb
    rw [e.total_toNat hsettings hroom hb]
    omega
  · rw [hdouble]
    apply List.sum_le_sum
    intro b hb
    rw [e.total_toNat hsettings hroom hb]
    omega

/-- Of no more than two nothing is paid twice. -/
theorem sum_total_of_le (hsettings : settings.Documented) (hsmall : e.fees ≤ 2) :
    (e.dataBlocks.map fun b => b.total.toNat).sum = e.fees := by
  apply congrArg List.sum
  apply List.map_congr_left
  intro b hb
  have hbase := e.base_le_fees hb
  rw [e.total_toNat hsettings (by omega) hb]
  omega

/-! ### The bound -/

/-- Both shares are rounded down; of five units of the coinbase reward nothing is lost. -/
theorem shares_le {coinbase fees : ℕ} (hsmall : fees ≤ 1 ∨ fees = 2 ∧ coinbase % 5 ≠ 0 ∧ coinbase % 5 ≠ 3) :
    coinbase * 40 / 100 + (fees + coinbase) * 60 / 100 ≤ coinbase := by
  obtain ⟨k, r, hr, rfl⟩ : ∃ k r, r < 5 ∧ coinbase = 5 * k + r :=
    ⟨coinbase / 5, coinbase % 5, Nat.mod_lt _ (by decide), (Nat.div_add_mod _ _).symm⟩
  have hown : (5 * k + r) * 40 / 100 = 2 * k + r * 40 / 100 := by omega
  have hpast : (fees + (5 * k + r)) * 60 / 100 = 3 * k + (fees + r) * 60 / 100 := by omega
  have hmod : (5 * k + r) % 5 = r := by omega
  rw [hmod] at hsmall
  rw [hown, hpast]
  rcases hsmall with hsmall | ⟨rfl, hzero, hthree⟩
  · interval_cases fees <;> interval_cases r <;> omega
  · interval_cases r <;> omega

/-- **No more is paid out than there is, where the fees are lost in the rounding.** -/
theorem bounded_of_small (hsettings : settings.Documented) (hsmall : e.Small) : e.Bounded := by
  have hle : e.fees ≤ 2 := hsmall.elim (fun h => h.trans (by decide)) (fun h => h.1.le)
  have htotal := e.sum_total_of_le hsettings hle
  have hown := partialReward_le settings .ALeader e.coinbase
  rw [hsettings.aLeader] at hown
  have hownShare : e.ownShare.toNat ≤ e.coinbase.toNat * 40 / 100 := hown
  have hpast := partialReward_le settings .BLeader
    (settings.poolAlong 0 (e.dataBlocks.map EpochBlock.live) e.key.live)
  rw [hsettings.bLeader, e.pool_eq, htotal, BitVec.toNat_ofNat, ← htotal, ← e.pool_eq] at hpast
  have hpastShare : e.pastShare.toNat ≤ (e.fees + e.coinbase.toNat) * 60 / 100 := by
    rw [htotal] at hpast
    exact hpast.trans (Nat.div_le_div_right (Nat.mul_le_mul_right 60 (Nat.mod_le _ _)))
  have hshares := shares_le hsmall
  unfold Bounded paid
  rw [htotal]
  omega

/-- Where nothing wraps, more is paid out than there is as soon as the fees are not lost in the rounding. -/
theorem bounded_iff_small (hsettings : settings.Documented) (hfits : e.Fits) : e.Bounded ↔ e.Small := by
  refine ⟨fun hbounded => ?_, e.bounded_of_small hsettings⟩
  unfold Fits at hfits
  obtain ⟨hle, hdouble⟩ := e.sum_total_bounds hsettings (by omega)
  have hpool : (BitVec.ofNat 256 ((e.dataBlocks.map fun b => b.total.toNat).sum + e.coinbase.toNat)).toNat =
      (e.dataBlocks.map fun b => b.total.toNat).sum + e.coinbase.toNat := by
    rw [BitVec.toNat_ofNat, Nat.mod_eq_of_lt (by omega)]
  have hown : e.ownShare.toNat = e.coinbase.toNat * 40 / 100 :=
    partialReward_of_lt hsettings.aLeader (by decide) (by omega)
  have hpast : e.pastShare.toNat =
      ((e.dataBlocks.map fun b => b.total.toNat).sum + e.coinbase.toNat) * 60 / 100 := by
    rw [pastShare, e.pool_eq, partialReward_of_lt hsettings.bLeader (by decide) (by rw [hpool]; omega), hpool]
  unfold Bounded paid at hbounded
  rw [hown, hpast] at hbounded
  unfold Small
  omega

end Epoch

/-- **The rewards of an epoch are paid out of the coinbase reward and its fees exactly if there are next to no fees,
and the walk to the previous key block ends exactly if that is there.** -/
theorem redistributes_once (settings : RewardSettings Trie) (hsettings : settings.Documented) :
    (∀ e : Epoch settings, e.Small → e.Bounded) ∧
    (∀ e : Epoch settings, e.Fits → e.Bounded → e.Small) ∧
    ∀ (bm : BlockLookup Trie) (current : LiveBlock Trie) (rewardVerifiedUpTilNow : BigInt)
      (mode : eEpochRewardCalculationMode), mode ≠ .total →
      ((∃ reward, Rewarded bm settings current rewardVerifiedUpTilNow mode reward) ↔
        (mode = .BLeader → current.mBlockHeader.isKeyBlock = true → current.isGenesis = false →
          ∃ dataBlocks keyBlock, EpochPath bm current dataBlocks keyBlock)) :=
  ⟨fun e => e.bounded_of_small hsettings, fun e hfits => (e.bounded_iff_small hsettings hfits).mp,
    fun _ _ _ _ hmode => rewarded_iff hmode⟩

/-! ### An epoch with one data block -/

section Sample

def sampleSettings : RewardSettings Bytes where
  getCoinbaseRewardForKeyHeight _ := 90
  getEpochRewardRatio
    | .ALeader => 40
    | .BLeader => 60
    | .total => 100
  getTotalBlockReward header := header.fields .mTotalReward

theorem sampleSettings_documented : sampleSettings.Documented where
  aLeader := rfl
  bLeader := rfl

def sampleContext : RewardContext Bytes where
  S := loggingRewards
  settings := sampleSettings
  bm :=
    { mBlockCacheFlat := []
      mVerifiedPath := []
      getMaxNrOfPrunedBlocksToKeepInMemory := 0
      getBlockByHash := fun _ => none
      instantiationResult := fun _ _ => .Failure }
  chain := sampleChain
  keyHeight := 3
  isDomainIDValid _ := true
  running _ := true
  runningForLeader _ := true

/-- A block in memory with its total reward. -/
def sampleLive (isKeyBlock : Bool) (height : ℕ) (total : BigInt) (parent : Option (LiveBlock Bytes)) :
    LiveBlock Bytes where
  mBlockHeader :=
    { mVersion := 4
      mIsKeyBlock := isKeyBlock
      fields
        | .mHeight => height
        | .mParentBlockID => List.replicate 32 7
        | .mTotalReward => total
        | f => f.kind.zero
      mTransactionsDB := []
      mReceiptsDB := []
      mVerifiablesDB := [] }
  mParentBlock := parent

/-- The same block with the reward of its operator. -/
def sampleFormed (isKeyBlock : Bool) (height : UInt64) (total paid : BigInt) : ReceiptedBlock where
  isKeyBlock := isKeyBlock
  height := height
  mMinersID := sampleAddress 1
  mTotalReward := total
  mPaidToLeader := paid
  verifiables := [{ mVerifiableType := .minerReward, mAffectedDomains := [⟨sampleAddress 1, total.toNat⟩] }]
  verifiableReceipts := [{ mGUID := List.replicate 33 5, mVerifiableID := List.replicate 32 0, mResult := .valid }]

def sampleTransactions (fees : BigInt) : ProcessedTransactions where
  ledger := sampleTreasury.ledger
  receipts := [{ mERGUsed := fees, mERGPrice := 1 }]
  mTotalGNCFees := fees

def sampleEpochKey : EpochBlock Bytes where
  context := sampleContext
  live := sampleLive true 0 90 none
  block := sampleFormed true 0 90 90
  txs := sampleTransactions 0
  base := 0
  total := 90

theorem sampleEpochKey_accepted : sampleEpochKey.Accepted sampleSettings where
  settings := rfl
  kind := rfl
  passed := ⟨1, _, rfl, rfl, rfl⟩

def sampleEpochData (fees total paid : BigInt) : EpochBlock Bytes where
  context := sampleContext
  live := sampleLive false 1 total sampleEpochKey.live
  block := sampleFormed false 1 total paid
  txs := sampleTransactions fees
  base := fees
  total := total

def sampleEpochNext (dataBlock : EpochBlock Bytes) (total paid : BigInt) : EpochBlock Bytes where
  context := sampleContext
  live := sampleLive true 2 total dataBlock.live
  block := sampleFormed true 2 total paid
  txs := sampleTransactions 0
  base := 0
  total := total

/-- An epoch with a single unit of fees. The shares of it are lost in the rounding. -/
def quietEpoch : Epoch sampleSettings where
  key := sampleEpochKey
  dataBlocks := [sampleEpochData 1 1 1]
  next := sampleEpochNext (sampleEpochData 1 1 1) 90 90
  keyAccepted := sampleEpochKey_accepted
  dataAccepted := List.forall_mem_singleton.mpr ⟨rfl, rfl, 1, _, rfl, rfl, rfl⟩
  nextAccepted := ⟨rfl, rfl, 3, _, rfl, rfl, rfl⟩
  path := .dataBlock rfl rfl (.keyBlock rfl rfl)
  nextKey := rfl
  later := rfl
  recorded := List.forall_mem_singleton.mpr rfl

theorem quietEpoch_bounded : quietEpoch.Bounded :=
  (redistributes_once sampleSettings sampleSettings_documented).1 quietEpoch (.inl (by decide))

/-- An epoch with fees of 100. -/
def busyEpoch : Epoch sampleSettings where
  key := sampleEpochKey
  dataBlocks := [sampleEpochData 100 140 126]
  next := sampleEpochNext (sampleEpochData 100 140 126) 174 157
  keyAccepted := sampleEpochKey_accepted
  dataAccepted := List.forall_mem_singleton.mpr ⟨rfl, rfl, 1, _, rfl, rfl, rfl⟩
  nextAccepted := ⟨rfl, rfl, 3, _, rfl, rfl, rfl⟩
  path := .dataBlock rfl rfl (.keyBlock rfl rfl)
  nextKey := rfl
  later := rfl
  recorded := List.forall_mem_singleton.mpr rfl

/-- Of 190 units 314 are paid out, and a key block whose parent is gone is asked for that parent. -/
theorem epoch_overpaid : (busyEpoch.paid = 314 ∧ busyEpoch.coinbase.toNat + busyEpoch.fees = 190) ∧
    ¬busyEpoch.Bounded ∧ ∀ fuel, getEpochReward sampleContext.bm sampleSettings (fuel + 1) (some (sampleLive true 2 0 none)) 0 .BLeader =
      some (.error .nullDereference) :=
  ⟨⟨by decide, by decide⟩, (by decide : ¬314 ≤ 190), fun _ => rfl⟩

end Sample

end Gridnet
