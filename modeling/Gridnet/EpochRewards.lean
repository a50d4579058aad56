import Gridnet.ForkWalks
import Gridnet.TransactionProcessing

/-! `CBlockchainManager::getEpochReward`: the share of a block in the rewards of its own epoch and of the
epoch before it, and exactly for which blocks the walk to the previous key block comes to an end. -/

namespace Gridnet

variable {Trie : Type}

inductive eEpochRewardCalculationMode where
  | total
  | ALeader
  | BLeader
  deriving DecidableEq, Repr

/-- What rewards are computed from beside the block: the coinbase reward, the ratios in hundredths, as
`llround(ratio * 100.0)`, and the total reward that counts for a header, the effective one where the storage
has it. -/
structure RewardSettings (Trie : Type) where
  getCoinbaseRewardForKeyHeight : ℕ → BigInt
  getEpochRewardRatio : eEpochRewardCalculationMode → ℕ
  getTotalBlockReward : CBlockHeader Trie → BigInt

namespace RewardSettings

variable (settings : RewardSettings Trie)

/-- The share of a leader in a pool. -/
def partialReward (mode : eEpochRewardCalculationMode) (rewardPool : BigInt) : BigInt :=
  rewardPool * BitVec.ofNat 256 (settings.getEpochRewardRatio mode) / 100

/-- The pool of the leader who produces a block: the coinbase reward of a key block, and else what was
verified of the block so far. -/
def ownPool (header : CBlockHeader Trie) (rewardVerifiedUpTilNow : BigInt) : BigInt :=
  if header.isKeyBlock then settings.getCoinbaseRewardForKeyHeight header.getKeyHeight
  else rewardVerifiedUpTilNow

end RewardSettings

/-- A failed look-up of a parent, as the fault of a flow. -/
def faultOf : Crash → ProcessFault
  | .nullPointer => .nullDereference
  | .outOfRange => .fault .outOfRange
  | .divisionByZero => .fault .assertion

section EpochReward

variable (bm : BlockLookup Trie) (settings : RewardSettings Trie)

/-- The loop to the previous key block, for as many turns as `fuel` allows. A missing parent is asked for
its header. -/
def epochPool : (fuel : ℕ) → (current : LiveBlock Trie) → (rewardPool : BigInt) →
    Option (Except ProcessFault BigInt)
  | 0, _, _ => none
  | fuel + 1, current, rewardPool =>
      match current.parentOf bm true true with
      | .error crash => some (.error (faultOf crash))
      | .ok none => some (.error .nullDereference)
      | .ok (some parent) =>
          let header := parent.mBlockHeader
          if header.isKeyBlock then
            some (.ok (rewardPool + settings.getCoinbaseRewardForKeyHeight header.getKeyHeight))
          else epochPool fuel parent (rewardPool + settings.getTotalBlockReward header)

/-- `getEpochReward`; `none` is the answer `false`. -/
def getEpochReward (fuel : ℕ) (fromPerspectiveOf : Option (LiveBlock Trie))
    (rewardVerifiedUpTilNow : BigInt) (mode : eEpochRewardCalculationMode) :
    Option (Except ProcessFault (Option BigInt)) :=
  match fromPerspectiveOf with
  | none => some (.ok none)
  | some current =>
      match mode with
      | .total => some (.error (.fault .assertion))
      | .ALeader =>
          some (.ok (some (settings.partialReward .ALeader
            (settings.ownPool current.mBlockHeader rewardVerifiedUpTilNow))))
      | .BLeader =>
          if current.mBlockHeader.isKeyBlock = false then some (.ok (some 0))
          else if current.isGenesis then
            some (.ok (some (settings.partialReward .BLeader
              (settings.getCoinbaseRewardForKeyHeight 0))))
          else
            (epochPool bm settings fuel current 0).map fun result =>
              result.map fun rewardPool => some (settings.partialReward .BLeader rewardPool)

end EpochReward

/-! ### Where it returns -/

section Returning

/-- Parents lead from a block over data blocks to a key block. -/
inductive EpochPath (bm : BlockLookup Trie) :
    LiveBlock Trie → List (LiveBlock Trie) → LiveBlock Trie → Prop where
  | keyBlock {current parent : LiveBlock Trie} :
      current.parentOf bm true true = .ok (some parent) → parent.mBlockHeader.isKeyBlock = true →
      EpochPath bm current [] parent
  | dataBlock {current parent keyBlock : LiveBlock Trie} {dataBlocks : List (LiveBlock Trie)} :
      current.parentOf bm true true = .ok (some parent) → parent.mBlockHeader.isKeyBlock = false →
      EpochPath bm parent dataBlocks keyBlock → EpochPath bm current (parent :: dataBlocks) keyBlock

variable {bm : BlockLookup Trie} {settings : RewardSettings Trie} {current keyBlock : LiveBlock Trie}
  {dataBlocks : List (LiveBlock Trie)} {rewardPool : BigInt}

/-- The pool along a path. -/
def RewardSettings.poolAlong (settings : RewardSettings Trie) (rewardPool : BigInt)
    (dataBlocks : List (LiveBlock Trie)) (keyBlock : LiveBlock Trie) : BigInt :=
  dataBlocks.foldl (fun pool block => pool + settings.getTotalBlockReward block.mBlockHeader) rewardPool +
    settings.getCoinbaseRewardForKeyHeight keyBlock.mBlockHeader.getKeyHeight

theorem epochPool_of_path (hpath : EpochPath bm current dataBlocks keyBlock) (rewardPool : BigInt) :
    epochPool bm settings (dataBlocks.length + 1) current rewardPool =
      some (.ok (settings.poolAlong rewardPool dataBlocks keyBlock)) := by
  induction hpath generalizing rewardPool with
  | keyBlock hparent hkey =>
      unfold epochPool
      rw [hparent]
      exact if_pos hkey
  | dataBlock hparent hdata hpath ih =>
      rw [List.length_cons]
      unfold epochPool
      rw [hparent]
      dsimp only
      rw [if_neg (by rw [hdata]; exact Bool.false_ne_true), ih]
      rfl

/-- The walk ends well only along such a path. -/
theorem path_of_epochPool {fuel : ℕ} {total : BigInt}
    (hpool : epochPool bm settings fuel current rewardPool = some (.ok total)) :
    ∃ dataBlocks keyBlock, EpochPath bm current dataBlocks keyBlock ∧
      total = settings.poolAlong rewardPool dataBlocks keyBlock := by
  induction fuel generalizing current rewardPool with
  | zero => cases hpool
  | succ fuel ih =>
      unfold epochPool at hpool
      split at hpool
      next => cases hpool
      next => cases hpool
      next parent hparent =>
          dsimp only at hpool
          split at hpool
          next hkey =>
              cases hpool
              exact ⟨[], parent, .keyBlock hparent hkey, rfl⟩
          next hdata =>
              obtain ⟨dataBlocks, keyBlock, hpath, htotal⟩ := ih hpool
              exact ⟨_, keyBlock, .dataBlock hparent (Bool.eq_false_of_not_eq_true hdata) hpath, htotal⟩

/-- A call for a block comes back with a reward. -/
def Rewarded (bm : BlockLookup Trie) (settings : RewardSettings Trie) (current : LiveBlock Trie)
    (rewardVerifiedUpTilNow : BigInt) (mode : eEpochRewardCalculationMode) (reward : BigInt) : Prop :=
  ∃ fuel, getEpochReward bm settings fuel (some current) rewardVerifiedUpTilNow mode =
    some (.ok (some reward))

theorem rewarded_ALeader_iff {rewardVerifiedUpTilNow reward : BigInt} :
    Rewarded bm settings current rewardVerifiedUpTilNow .ALeader reward ↔
      reward = settings.partialReward .ALeader
        (settings.ownPool current.mBlockHeader rewardVerifiedUpTilNow) := by
  constructor
  · rintro ⟨fuel, hreward⟩
    cases hreward
    rfl
  · rintro rfl
    exact ⟨0, rfl⟩

theorem rewarded_of_data {rewardVerifiedUpTilNow reward : BigInt}
    (hdata : current.mBlockHeader.isKeyBlock = false) :
    Rewarded bm settings current rewardVerifiedUpTilNow .BLeader reward ↔ reward = 0 := by
  have hcall : ∀ fuel, getEpochReward bm settings fuel (some current) rewardVerifiedUpTilNow .BLeader =
      some (.ok (some 0)) := fun _ => if_pos hdata
  constructor
  · rintro ⟨fuel, hreward⟩
    rw [hcall] at hreward
    cases hreward
    rfl
  · rintro rfl
    exact ⟨0, hcall 0⟩

theorem rewarded_of_genesis {rewardVerifiedUpTilNow reward : BigInt} (hgenesis : current.isGenesis = true) :
    Rewarded bm settings current rewardVerifiedUpTilNow .BLeader reward ↔
      reward = settings.partialReward .BLeader (settings.getCoinbaseRewardForKeyHeight 0) := by
  have hkey : current.mBlockHeader.isKeyBlock = true := (Bool.and_eq_true _ _ ▸ hgenesis).1
  have hcall : ∀ fuel, getEpochReward bm settings fuel (some current) rewardVerifiedUpTilNow .BLeader =
      some (.ok (some (settings.partialReward .BLeader (settings.getCoinbaseRewardForKeyHeight 0)))) := by
    intro fuel
    show (if current.mBlockHeader.isKeyBlock = false then _ else _) = _
    rw [if_neg (by rw [hkey]; simp), if_pos hgenesis]
  constructor
  · rintro ⟨fuel, hreward⟩
    rw [hcall] at hreward
    cases hreward
    rfl
  · rintro rfl
    exact ⟨0, hcall 0⟩

theorem rewarded_of_key {rewardVerifiedUpTilNow reward : BigInt}
    (hkey : current.mBlockHeader.isKeyBlock = true) (hlater : current.isGenesis = false) :
    Rewarded bm settings current rewardVerifiedUpTilNow .BLeader reward ↔
      ∃ dataBlocks keyBlock, EpochPath bm current dataBlocks keyBlock ∧
        reward = settings.partialReward .BLeader (settings.poolAlong 0 dataBlocks keyBlock) := by
  have hcall : ∀ fuel, getEpochReward bm settings fuel (some current) rewardVerifiedUpTilNow .BLeader =
      (epochPool bm settings fuel current 0).map fun result =>
        result.map fun rewardPool => some (settings.partialReward .BLeader rewardPool) := by
    intro fuel
    show (if current.mBlockHeader.isKeyBlock = false then _ else _) = _
    rw [if_neg (by rw [hkey]; simp), if_neg (by rw [hlater]; simp)]
  constructor
  · rintro ⟨fuel, hreward⟩
    rw [hcall] at hreward
    obtain ⟨result, hpool, hresult⟩ := Option.map_eq_some_iff.mp hreward
    cases result with
    | error fault => cases hresult
    | ok rewardPool =>
        cases hresult
        obtain ⟨dataBlocks, keyBlock, hpath, rfl⟩ := path_of_epochPool hpool
        exact ⟨dataBlocks, keyBlock, hpath, rfl⟩
  · rintro ⟨dataBlocks, keyBlock, hpath, rfl⟩
    refine ⟨dataBlocks.length + 1, ?_⟩
    rw [hcall, epochPool_of_path hpath]
    rfl

/-- For every block and either leader a call comes back with a reward exactly if the block is not a key
block, or the first one, or has a key block before it with all data blocks in between at hand, unless the
reward of the past epoch is not asked for. -/
theorem rewarded_iff {rewardVerifiedUpTilNow : BigInt} {mode : eEpochRewardCalculationMode}
    (hmode : mode ≠ .total) :
    (∃ reward, Rewarded bm settings current rewardVerifiedUpTilNow mode reward) ↔
      (mode = .BLeader → current.mBlockHeader.isKeyBlock = true → current.isGenesis = false →
        ∃ dataBlocks keyBlock, EpochPath bm current dataBlocks keyBlock) := by
  cases mode with
  | total => exact absurd rfl hmode
  | ALeader => exact iff_of_true ⟨_, rewarded_ALeader_iff.mpr rfl⟩ nofun
  | BLeader =>
      cases hkey : current.mBlockHeader.isKeyBlock with
      | false => exact iff_of_true ⟨_, (rewarded_of_data hkey).mpr rfl⟩ nofun
      | true =>
          cases hgenesis : current.isGenesis with
          | true => exact iff_of_true ⟨_, (rewarded_of_genesis hgenesis).mpr rfl⟩ nofun
          | false =>
              simp only [rewarded_of_key hkey hgenesis, forall_const]
              constructor
              · rintro ⟨_, dataBlocks, keyBlock, hpath, -⟩
                exact ⟨dataBlocks, keyBlock, hpath⟩
              · rintro ⟨dataBlocks, keyBlock, hpath⟩
                exact ⟨_, dataBlocks, keyBlock, hpath, rfl⟩

end Returning

end Gridnet
