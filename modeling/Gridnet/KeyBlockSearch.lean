import Gridnet.ForkWalks

/-! The key block of a block: `CBlockchainManager::getKeyBlockForBlock`, which asks the flat cache of key
blocks, walks over the parents, and looks into the index of key blocks by key height. What it should
return is the first key block among the block's own ancestors; the condition under which it does is read
off the cache and the index. -/

namespace Gridnet

variable {Trie : Type}

namespace CBlockHeader

/-- The test that all three methods make: a key block, not a hard-fork block where these are omitted. -/
def acceptable (omitHardForkBlocks : Bool) (header : CBlockHeader Trie) : Bool :=
  header.isKeyBlock && !(omitHardForkBlocks && header.getNonce == 0)

end CBlockHeader

/-- Which chain a look-up is about, or a cached copy of one. -/
inductive eKeyBlockChain where
  | verified
  | verifiedCached
  | heaviest
  | heaviestCached
  | fullTemporary
  | partialProof
  deriving DecidableEq, Repr

/-- The chains for which the caches are asked. -/
def eKeyBlockChain.isVerified (chain : eKeyBlockChain) : Bool :=
  chain == .verified || chain == .verifiedCached

/-- The look-up of blocks with the flat cache of key blocks and the indices of key blocks by key height. -/
structure KeyBlockLookup (Trie : Type) extends BlockLookup Trie where
  mKeyBlockCacheFlat : List (Option (LiveBlock Trie))
  mVerifiedKeyBlockIDsAtHeights : List Bytes
  mHeaviestKeyBlockIDsAtHeights : List Bytes

namespace KeyBlockLookup

open CBlockHeader LiveBlock

variable (bm : KeyBlockLookup Trie)

/-- `getBlockFlatCache` for a key height. -/
def getKeyBlockFlatCache (index : ℕ) : Option (LiveBlock Trie) := (bm.mKeyBlockCacheFlat[index]?).join

/-- `getBlockIDAtKeyHeight`. The cached copies of the chains have no index. -/
def getBlockIDAtKeyHeight (height : ℕ) : (chainProof : eKeyBlockChain) → Bytes
  | .verified => (bm.mVerifiedKeyBlockIDsAtHeights[height]?).getD []
  | .heaviest => (bm.mHeaviestKeyBlockIDsAtHeights[height]?).getD []
  | _ => []

/-- The first loop: down the flat cache until an entry is missing. The index stays at zero once it is
there, and nothing but a missing entry ends the loop. -/
def flatCacheLoop (omitHardForkBlocks : Bool) :
    (turns i : ℕ) → Option (Option (LiveBlock Trie))
  | 0, _ => none
  | turns + 1, i =>
      match bm.getKeyBlockFlatCache i with
      | none => some none
      | some current =>
          if current.mBlockHeader.acceptable omitHardForkBlocks then some (some current)
          else flatCacheLoop omitHardForkBlocks turns (i - 1)

/-- The second loop, over the parents. -/
def parentLoop (omitHardForkBlocks : Bool) :
    (turns : ℕ) → LiveBlock Trie → Option (Except Crash (Option (LiveBlock Trie)))
  | 0, _ => none
  | turns + 1, current =>
      match current.parentOf bm.toBlockLookup true false with
      | .error crash => some (.error crash)
      | .ok none => some (.ok none)
      | .ok (some parent) =>
          if parent.mBlockHeader.acceptable omitHardForkBlocks then some (.ok (some parent))
          else parentLoop omitHardForkBlocks turns parent

/-- The last method: the index one below the block's own key height, and the storage. -/
def coldStorageKeyBlock (omitHardForkBlocks : Bool) (chain : eKeyBlockChain) (currentKeyHeight : ℕ) :
    Option (LiveBlock Trie) :=
  let previousKeyBlockID := bm.getBlockIDAtKeyHeight (currentKeyHeight - 1) chain
  if previousKeyBlockID.isEmpty then none
  else (bm.fromStorage previousKeyBlockID).filter
    fun current => current.mBlockHeader.acceptable omitHardForkBlocks

/-- Where the first loop begins. -/
def cacheStart (header : CBlockHeader Trie) : ℕ :=
  if header.isKeyBlock then header.getKeyHeight - 1 else header.getKeyHeight

/-- `CBlockchainManager::getKeyBlockForBlock`; `none` where a loop is not over after that many turns. -/
def getKeyBlockForBlock (turns : ℕ) (block : LiveBlock Trie) (omitHardForkBlocks : Bool)
    (chain : eKeyBlockChain) (allowHotStorageCache : Bool) :
    Option (Except Crash (Option (LiveBlock Trie))) :=
  let currentKeyHeight := block.mBlockHeader.getKeyHeight
  if currentKeyHeight = 0 then some (.ok none)
  else do
    let cached ←
      if chain.isVerified then
        bm.flatCacheLoop omitHardForkBlocks turns (cacheStart block.mBlockHeader)
      else some none
    match cached with
    | some current => some (.ok (some current))
    | none =>
        let walked ←
          if allowHotStorageCache && chain.isVerified then
            bm.parentLoop omitHardForkBlocks turns block
          else some (.ok none)
        match walked with
        | .error crash => some (.error crash)
        | .ok (some current) => some (.ok (some current))
        | .ok none => some (.ok (bm.coldStorageKeyBlock omitHardForkBlocks chain currentKeyHeight))

/-! ### The nearest key block -/

/-- The first key block met from a block over the parents that the headers name. -/
def nearestKeyBlock (omitHardForkBlocks : Bool) (header : CBlockHeader Trie) :
    Option (CBlockHeader Trie) :=
  (bm.ancestry header).tail.find? (acceptable omitHardForkBlocks)

/-- The call ends and returns the nearest key block of the block's own ancestors. -/
def FindsKeyBlock (block : LiveBlock Trie) (omitHardForkBlocks : Bool) (chain : eKeyBlockChain)
    (allowHotStorageCache : Bool) : Prop :=
  ∃ turns found,
    bm.getKeyBlockForBlock turns block omitHardForkBlocks chain allowHotStorageCache = some (.ok found) ∧
      found.map mBlockHeader = bm.nearestKeyBlock omitHardForkBlocks block.mBlockHeader

/-- The `k`-th ancestor of a header is the first that may be returned. The header itself is at 0. -/
structure NearestAt (omitHardForkBlocks : Bool) (header : CBlockHeader Trie) (k : ℕ) (key : CBlockHeader Trie) :
    Prop where
  above : 1 ≤ k
  here : (bm.ancestry header)[k]? = some key
  accepted : key.acceptable omitHardForkBlocks = true
  first : ∀ i other, 1 ≤ i → i < k → (bm.ancestry header)[i]? = some other →
    other.acceptable omitHardForkBlocks = false

/-- No ancestor may be returned. -/
def NoneAbove (omitHardForkBlocks : Bool) (header : CBlockHeader Trie) : Prop :=
  ∀ i other, 1 ≤ i → (bm.ancestry header)[i]? = some other → other.acceptable omitHardForkBlocks = false

/-- The entry that the index of the chain has one below the block's key height is the id of the first ancestor that may
be returned; or there is none, and no block that may be returned is stored under the entry. -/
def IndexNamesNearest (getID : CBlockHeader Trie → Bytes) (omitHardForkBlocks : Bool) (chain : eKeyBlockChain)
    (header : CBlockHeader Trie) : Prop :=
  let entry := bm.getBlockIDAtKeyHeight (header.getKeyHeight - 1) chain
  (∃ k key, bm.NearestAt omitHardForkBlocks header k key ∧ entry = getID key) ∨
    bm.NoneAbove omitHardForkBlocks header ∧
      ∀ other, bm.getBlockByHash entry = some other → other.acceptable omitHardForkBlocks = false

/-- An entry of the flat cache with a block that may not be returned. -/
def Passes (omitHardForkBlocks : Bool) (i : ℕ) : Prop :=
  ∃ current, bm.getKeyBlockFlatCache i = some current ∧
    current.mBlockHeader.acceptable omitHardForkBlocks = false

/-- The first entry of the flat cache, from `start` down, that is missing or may be returned. -/
def StopsAt (omitHardForkBlocks : Bool) (start j : ℕ) : Prop :=
  j ≤ start ∧ (∀ i, j < i → i ≤ start → bm.Passes omitHardForkBlocks i) ∧
    ¬ bm.Passes omitHardForkBlocks j

/-- Down the flat cache there is an entry to stop at. It holds the first ancestor that may be returned; or it is
missing, and then there is such an ancestor and the parents may be asked, or the index names it. -/
def CacheNamesNearest (getID : CBlockHeader Trie → Bytes) (omitHardForkBlocks : Bool) (chain : eKeyBlockChain)
    (allowHotStorageCache : Bool) (header : CBlockHeader Trie) : Prop :=
  ∃ j, bm.StopsAt omitHardForkBlocks (cacheStart header) j ∧
    ((∃ current k, bm.getKeyBlockFlatCache j = some current ∧
        bm.NearestAt omitHardForkBlocks header k current.mBlockHeader) ∨
      bm.getKeyBlockFlatCache j = none ∧
        (allowHotStorageCache = true ∧ (∃ k key, bm.NearestAt omitHardForkBlocks header k key) ∨
          bm.IndexNamesNearest getID omitHardForkBlocks chain header))

/-- What the cache and the index must hold for the call to return the nearest key block. At key height
zero nothing is asked, and there must be no key block below. -/
def StateNamesNearest (getID : CBlockHeader Trie → Bytes) (omitHardForkBlocks : Bool) (chain : eKeyBlockChain)
    (allowHotStorageCache : Bool) (header : CBlockHeader Trie) : Prop :=
  if header.getKeyHeight = 0 then bm.NoneAbove omitHardForkBlocks header
  else if chain.isVerified then
    bm.CacheNamesNearest getID omitHardForkBlocks chain allowHotStorageCache header
  else bm.IndexNamesNearest getID omitHardForkBlocks chain header

variable {bm} {omitHardForkBlocks : Bool}

/-! ### The flat cache -/

theorem flatCacheLoop_pass {turns i : ℕ} (hpass : bm.Passes omitHardForkBlocks i) :
    bm.flatCacheLoop omitHardForkBlocks (turns + 1) i =
      bm.flatCacheLoop omitHardForkBlocks turns (i - 1) := by
  obtain ⟨current, hcurrent, hother⟩ := hpass
  simp [flatCacheLoop, hcurrent, hother]

theorem flatCacheLoop_stop {turns i : ℕ} (hstop : ¬ bm.Passes omitHardForkBlocks i) :
    bm.flatCacheLoop omitHardForkBlocks (turns + 1) i = some (bm.getKeyBlockFlatCache i) := by
  cases hcurrent : bm.getKeyBlockFlatCache i with
  | none => simp [flatCacheLoop, hcurrent]
  | some current =>
      have haccepted : current.mBlockHeader.acceptable omitHardForkBlocks = true := by
        by_contra hother
        exact hstop ⟨current, hcurrent, by simpa using hother⟩
      simp [flatCacheLoop, hcurrent, haccepted]

/-- What the first loop returns is the entry it stops at. -/
theorem stopsAt_of_flatCacheLoop {turns start : ℕ} {cached : Option (LiveBlock Trie)}
    (hrun : bm.flatCacheLoop omitHardForkBlocks turns start = some cached) :
    ∃ j, bm.StopsAt omitHardForkBlocks start j ∧ bm.getKeyBlockFlatCache j = cached := by
  induction turns generalizing start with
  | zero => cases hrun
  | succ turns ih =>
      by_cases hpass : bm.Passes omitHardForkBlocks start
      · rw [flatCacheLoop_pass hpass] at hrun
        obtain ⟨j, ⟨hle, hpassed, hstop⟩, hentry⟩ := ih hrun
        refine ⟨j, ⟨by omega, ?_, hstop⟩, hentry⟩
        intro i hji hi
        rcases Nat.lt_or_eq_of_le hi with hlt | rfl
        · exact hpassed i hji (by omega)
        · exact hpass
      · rw [flatCacheLoop_stop hpass] at hrun
        cases hrun
        exact ⟨start, ⟨le_refl start, by omega, hpass⟩, rfl⟩

/-- With an entry to stop at, the loop ends there. -/
theorem flatCacheLoop_of_stopsAt {turns start j : ℕ} (hstops : bm.StopsAt omitHardForkBlocks start j)
    (hturns : start - j < turns) :
    bm.flatCacheLoop omitHardForkBlocks turns start = some (bm.getKeyBlockFlatCache j) := by
  induction turns generalizing start with
  | zero => omega
  | succ turns ih =>
      obtain ⟨hle, hpassed, hstop⟩ := hstops
      rcases Nat.lt_or_eq_of_le hle with hlt | rfl
      · rw [flatCacheLoop_pass (hpassed start hlt (le_refl start))]
        apply ih
        · exact ⟨by omega, fun i hji hi => hpassed i hji (by omega), hstop⟩
        · omega
      · exact flatCacheLoop_stop hstop

/-! ### The parents -/

variable {getID : CBlockHeader Trie → Bytes} {getDifficulty : CBlockHeader Trie → ℕ}

theorem nearestKeyBlock_root (htree : bm.Tree getID getDifficulty) {hash : Bytes}
    {header : CBlockHeader Trie} (hstored : bm.getBlockByHash hash = some header)
    (hroot : bm.ownParent header = none) : bm.nearestKeyBlock omitHardForkBlocks header = none := by
  unfold nearestKeyBlock
  rw [htree.ancestry_eq hstored, hroot]
  rfl

theorem nearestKeyBlock_parent (htree : bm.Tree getID getDifficulty) {hash : Bytes}
    {header parent : CBlockHeader Trie} (hstored : bm.getBlockByHash hash = some header)
    (hparent : bm.ownParent header = some parent) :
    bm.nearestKeyBlock omitHardForkBlocks header =
      if parent.acceptable omitHardForkBlocks then some parent
      else bm.nearestKeyBlock omitHardForkBlocks parent := by
  have hstored' := (BlockLookup.ownParent_some hparent).2.2
  obtain ⟨above, habove⟩ : ∃ above, bm.ancestry parent = parent :: above := by
    cases hgrand : bm.ownParent parent with
    | none => exact ⟨[], by rw [htree.ancestry_eq hstored', hgrand]⟩
    | some grand => exact ⟨_, htree.ancestry_parent hstored' hgrand⟩
  unfold nearestKeyBlock
  rw [htree.ancestry_parent hstored hparent, List.tail_cons, habove, List.find?_cons, List.tail_cons]
  cases parent.acceptable omitHardForkBlocks <;> rfl

/-- Where every look-up shows the own parent, the second loop finds the nearest key block, in no more
turns than the height allows. -/
theorem parentLoop_nearest (htree : bm.Tree getID getDifficulty) (turns : ℕ) (block : LiveBlock Trie)
    (hfaithful : block.Faithful bm.toBlockLookup getID getDifficulty)
    (hshows : ∀ above ∈ bm.ancestry block.pointerEnd.mBlockHeader, bm.ShowsParent above) :
    (bm.parentLoop omitHardForkBlocks turns block = none ∧ turns ≤ block.mBlockHeader.getHeight) ∨
      ∃ found, bm.parentLoop omitHardForkBlocks turns block = some (.ok found) ∧
        found.map mBlockHeader = bm.nearestKeyBlock omitHardForkBlocks block.mBlockHeader := by
  induction turns generalizing block with
  | zero => exact .inl ⟨rfl, Nat.zero_le _⟩
  | succ turns ih =>
      rcases parentOf_cases htree hfaithful false with
        ⟨hlookup, hroot, -, -⟩ | ⟨parent, hlookup, hparent, hown, hpointer⟩ |
        ⟨parent, -, hnone, -, hother⟩
      · refine .inr ⟨none, by simp [parentLoop, hlookup], ?_⟩
        rw [nearestKeyBlock_root htree hfaithful.stored hroot]
        rfl
      · rw [nearestKeyBlock_parent htree hfaithful.stored hown]
        have hheight : parent.mBlockHeader.getHeight + 1 = block.mBlockHeader.getHeight :=
          htree.heights hfaithful.stored hown
        by_cases haccepted : parent.mBlockHeader.acceptable omitHardForkBlocks = true
        · exact .inr ⟨some parent, by simp [parentLoop, hlookup, haccepted], by simp [haccepted]⟩
        · have hnext : bm.parentLoop omitHardForkBlocks (turns + 1) block =
              bm.parentLoop omitHardForkBlocks turns parent := by
            simp [parentLoop, hlookup, haccepted]
          rw [hnext, if_neg haccepted]
          have hshows' :=
            shows_of_parent htree hfaithful hparent hown (hpointer.imp_right And.left) hshows
          rcases ih parent hparent hshows' with ⟨hrun, hle⟩ | hfound
          · exact .inl ⟨hrun, by omega⟩
          · exact .inr hfound
      · rw [pointerEnd_of_none hnone] at hshows
        exact absurd (hshows _ (htree.ancestry_self hfaithful.stored)) hother

/-! ### Positions -/

theorem nearestKeyBlock_eq_some_iff {header key : CBlockHeader Trie} :
    bm.nearestKeyBlock omitHardForkBlocks header = some key ↔
      ∃ k, bm.NearestAt omitHardForkBlocks header k key := by
  unfold nearestKeyBlock
  rw [List.find?_eq_some_iff_getElem]
  constructor
  · rintro ⟨haccepted, k, hk, rfl, hfirst⟩
    refine ⟨k + 1, Nat.succ_pos k, ?_, haccepted, ?_⟩
    · rw [← List.getElem?_tail]
      exact List.getElem?_eq_getElem hk
    · intro i other hi hlt hother
      obtain ⟨i, rfl⟩ := Nat.exists_eq_add_of_le' hi
      rw [← List.getElem?_tail] at hother
      obtain ⟨hlength, rfl⟩ := List.getElem?_eq_some_iff.mp hother
      simpa using hfirst i (by omega)
  · rintro ⟨k, habove, hhere, haccepted, hfirst⟩
    obtain ⟨k, rfl⟩ := Nat.exists_eq_add_of_le' habove
    rw [← List.getElem?_tail] at hhere
    obtain ⟨hk, hkey⟩ := List.getElem?_eq_some_iff.mp hhere
    refine ⟨haccepted, k, hk, hkey, ?_⟩
    intro i hi
    have hlt := hi.trans hk
    have hother : (bm.ancestry header)[i + 1]? = some (bm.ancestry header).tail[i] := by
      rw [← List.getElem?_tail]
      exact List.getElem?_eq_getElem _
    rw [hfirst (i + 1) _ (Nat.succ_pos i) (by omega) hother]
    rfl

theorem nearestKeyBlock_eq_none_iff {header : CBlockHeader Trie} :
    bm.nearestKeyBlock omitHardForkBlocks header = none ↔ bm.NoneAbove omitHardForkBlocks header := by
  unfold nearestKeyBlock NoneAbove
  rw [List.find?_eq_none]
  constructor
  · intro hnone i other hi hother
    obtain ⟨i, rfl⟩ := Nat.exists_eq_add_of_le' hi
    rw [← List.getElem?_tail] at hother
    simpa using hnone other (List.mem_of_getElem? hother)
  · intro hnone other hmem
    obtain ⟨i, hother⟩ := List.mem_iff_getElem?.mp hmem
    rw [List.getElem?_tail] at hother
    simp [hnone (i + 1) other (Nat.succ_pos i) hother]

theorem nearestKeyBlock_ne_none_iff {header : CBlockHeader Trie} :
    bm.nearestKeyBlock omitHardForkBlocks header ≠ none ↔
      ∃ k key, bm.NearestAt omitHardForkBlocks header k key := by
  rw [Option.ne_none_iff_exists']
  simp only [nearestKeyBlock_eq_some_iff]
  exact exists_comm

/-- Ancestors are stored under their ids. -/
theorem ancestry_stored (htree : bm.Tree getID getDifficulty) :
    ∀ (n : ℕ) (header : CBlockHeader Trie), bm.getBlockByHash (getID header) = some header →
      ∀ above ∈ bm.lineage n header, bm.getBlockByHash (getID above) = some above := by
  intro n
  induction n with
  | zero =>
      intro header hstored above habove
      obtain rfl := List.mem_singleton.mp habove
      exact hstored
  | succ n ih =>
      intro header hstored above habove
      unfold BlockLookup.lineage at habove
      split at habove
      next =>
          obtain rfl := List.mem_singleton.mp habove
          exact hstored
      next parent hparent =>
          rcases List.mem_cons.mp habove with rfl | habove
          · exact hstored
          · have hstored' := (BlockLookup.ownParent_some hparent).2.2
            rw [← htree.keyed hstored'] at hstored'
            exact ih parent hstored' above habove

/-! ### The index -/

/-- The last method finds the nearest key block exactly where the entry is its id, or names nothing and there is
none. -/
theorem indexNamesNearest_iff (htree : bm.Tree getID getDifficulty) {chain : eKeyBlockChain} {hash : Bytes}
    {header : CBlockHeader Trie} (hstored : bm.getBlockByHash hash = some header) :
    (bm.coldStorageKeyBlock omitHardForkBlocks chain header.getKeyHeight).map mBlockHeader =
        bm.nearestKeyBlock omitHardForkBlocks header ↔
      bm.IndexNamesNearest getID omitHardForkBlocks chain header := by
  have hown : bm.getBlockByHash (getID header) = some header := by
    rw [htree.keyed hstored]
    exact hstored
  have hcold : (bm.coldStorageKeyBlock omitHardForkBlocks chain header.getKeyHeight).map mBlockHeader =
      (bm.getBlockByHash (bm.getBlockIDAtKeyHeight (header.getKeyHeight - 1) chain)).filter
        (acceptable omitHardForkBlocks) := by
    unfold coldStorageKeyBlock BlockLookup.fromStorage
    dsimp only
    cases hempty : (bm.getBlockIDAtKeyHeight (header.getKeyHeight - 1) chain).isEmpty with
    | true =>
        rw [if_pos rfl, List.isEmpty_iff.mp hempty]
        cases hnamed : bm.getBlockByHash [] with
        | none => rfl
        | some other => cases htree.named hnamed
    | false =>
        rw [if_neg Bool.false_ne_true]
        cases bm.getBlockByHash (bm.getBlockIDAtKeyHeight (header.getKeyHeight - 1) chain) with
        | none => rfl
        | some other =>
            simp only [Option.map_some, Option.filter_some]
            cases other.acceptable omitHardForkBlocks <;> rfl
  rw [hcold]
  unfold IndexNamesNearest
  generalize bm.getBlockIDAtKeyHeight (header.getKeyHeight - 1) chain = entry
  cases hnearest : bm.nearestKeyBlock omitHardForkBlocks header with
  | none =>
      have hnone := nearestKeyBlock_eq_none_iff.mp hnearest
      rw [Option.filter_eq_none_iff]
      constructor
      · intro hother
        exact .inr ⟨hnone, fun other hfound => by simpa using hother other hfound⟩
      · rintro (⟨k, key, hat, -⟩ | ⟨-, hother⟩)
        · rw [nearestKeyBlock_eq_some_iff.mpr ⟨k, hat⟩] at hnearest
          cases hnearest
        · intro other hfound
          simp [hother other hfound]
  | some key =>
      obtain ⟨k, hat⟩ := nearestKeyBlock_eq_some_iff.mp hnearest
      rw [Option.filter_eq_some_iff]
      constructor
      · rintro ⟨hfound, -⟩
        exact .inl ⟨k, key, hat, (htree.keyed hfound).symm⟩
      · rintro (⟨k', key', hat', rfl⟩ | ⟨hnone, -⟩)
        · have hkey : key' = key :=
            Option.some.inj ((nearestKeyBlock_eq_some_iff.mpr ⟨k', hat'⟩).symm.trans hnearest)
          subst hkey
          exact ⟨ancestry_stored htree _ header hown _ (List.mem_of_getElem? hat'.here), hat'.accepted⟩
        · rw [nearestKeyBlock_eq_none_iff.mpr hnone] at hnearest
          cases hnearest

/-! ### The whole call -/

theorem getKeyBlockForBlock_zero {turns : ℕ} {block : LiveBlock Trie}
    (hzero : block.mBlockHeader.getKeyHeight = 0) (chain : eKeyBlockChain) (allowHotStorageCache : Bool) :
    bm.getKeyBlockForBlock turns block omitHardForkBlocks chain allowHotStorageCache =
      some (.ok none) := by
  simp [getKeyBlockForBlock, hzero]

theorem getKeyBlockForBlock_index {turns : ℕ} {block : LiveBlock Trie} {chain : eKeyBlockChain}
    (hpos : block.mBlockHeader.getKeyHeight ≠ 0) (hchain : chain.isVerified = false)
    (allowHotStorageCache : Bool) :
    bm.getKeyBlockForBlock turns block omitHardForkBlocks chain allowHotStorageCache =
      some (.ok (bm.coldStorageKeyBlock omitHardForkBlocks chain block.mBlockHeader.getKeyHeight)) := by
  simp [getKeyBlockForBlock, hpos, hchain]

theorem getKeyBlockForBlock_cached {turns : ℕ} {block current : LiveBlock Trie} {chain : eKeyBlockChain}
    (hpos : block.mBlockHeader.getKeyHeight ≠ 0) (hchain : chain.isVerified = true)
    (hrun : bm.flatCacheLoop omitHardForkBlocks turns (cacheStart block.mBlockHeader) =
      some (some current)) (allowHotStorageCache : Bool) :
    bm.getKeyBlockForBlock turns block omitHardForkBlocks chain allowHotStorageCache =
      some (.ok (some current)) := by
  simp [getKeyBlockForBlock, hpos, hchain, hrun]

/-- Where the cache has nothing to return and the parents may not be asked, the index decides. -/
theorem getKeyBlockForBlock_cold {turns : ℕ} {block : LiveBlock Trie} {chain : eKeyBlockChain}
    (hpos : block.mBlockHeader.getKeyHeight ≠ 0) (hchain : chain.isVerified = true)
    (hrun : bm.flatCacheLoop omitHardForkBlocks turns (cacheStart block.mBlockHeader) = some none) :
    bm.getKeyBlockForBlock turns block omitHardForkBlocks chain false =
      some (.ok (bm.coldStorageKeyBlock omitHardForkBlocks chain block.mBlockHeader.getKeyHeight)) := by
  simp [getKeyBlockForBlock, hpos, hchain, hrun]

/-- Where the cache has nothing to return, the parents are asked before the index. -/
theorem getKeyBlockForBlock_walked {turns : ℕ} {block : LiveBlock Trie} {chain : eKeyBlockChain}
    {found : Option (LiveBlock Trie)} (hpos : block.mBlockHeader.getKeyHeight ≠ 0)
    (hchain : chain.isVerified = true)
    (hrun : bm.flatCacheLoop omitHardForkBlocks turns (cacheStart block.mBlockHeader) = some none)
    (hwalk : bm.parentLoop omitHardForkBlocks turns block = some (.ok found)) :
    bm.getKeyBlockForBlock turns block omitHardForkBlocks chain true =
      some (.ok (found.or
        (bm.coldStorageKeyBlock omitHardForkBlocks chain block.mBlockHeader.getKeyHeight))) := by
  cases found <;> simp [getKeyBlockForBlock, hpos, hchain, hrun, hwalk]

/-- A call about the verified chain that returns has an entry of the cache to stop at. -/
theorem cached_of_getKeyBlockForBlock {turns : ℕ} {block : LiveBlock Trie} {chain : eKeyBlockChain}
    {allowHotStorageCache : Bool} {result : Except Crash (Option (LiveBlock Trie))}
    (hpos : block.mBlockHeader.getKeyHeight ≠ 0) (hchain : chain.isVerified = true)
    (hrun : bm.getKeyBlockForBlock turns block omitHardForkBlocks chain allowHotStorageCache =
      some result) :
    ∃ cached, bm.flatCacheLoop omitHardForkBlocks turns (cacheStart block.mBlockHeader) = some cached := by
  cases hloop : bm.flatCacheLoop omitHardForkBlocks turns (cacheStart block.mBlockHeader) with
  | some cached => exact ⟨cached, rfl⟩
  | none => simp [getKeyBlockForBlock, hpos, hchain, hloop] at hrun

/-- A call that asks the parents and returns has come to the end of them. -/
theorem walked_of_getKeyBlockForBlock {turns : ℕ} {block : LiveBlock Trie} {chain : eKeyBlockChain}
    {result : Except Crash (Option (LiveBlock Trie))}
    (hpos : block.mBlockHeader.getKeyHeight ≠ 0) (hchain : chain.isVerified = true)
    (hloop : bm.flatCacheLoop omitHardForkBlocks turns (cacheStart block.mBlockHeader) = some none)
    (hrun : bm.getKeyBlockForBlock turns block omitHardForkBlocks chain true = some result) :
    bm.parentLoop omitHardForkBlocks turns block ≠ none := by
  intro hwalk
  simp [getKeyBlockForBlock, hpos, hchain, hloop, hwalk] at hrun

theorem or_names_nearest {found cold : Option (LiveBlock Trie)} {nearest : Option (CBlockHeader Trie)}
    (hfound : found.map mBlockHeader = nearest) :
    (found.or cold).map mBlockHeader = nearest ↔ nearest ≠ none ∨ cold.map mBlockHeader = nearest := by
  subst hfound
  cases found <;> simp

/-- The call about the verified chain, with an entry of the cache to stop at. -/
theorem findsKeyBlock_iff_stopsAt (htree : bm.Tree getID getDifficulty) {block : LiveBlock Trie}
    (hfaithful : block.Faithful bm.toBlockLookup getID getDifficulty)
    (hwalks : WalksOwnBranch bm.toBlockLookup block)
    (hpos : block.mBlockHeader.getKeyHeight ≠ 0) {chain : eKeyBlockChain}
    (hchain : chain.isVerified = true) (allowHotStorageCache : Bool) :
    bm.FindsKeyBlock block omitHardForkBlocks chain allowHotStorageCache ↔
      bm.CacheNamesNearest getID omitHardForkBlocks chain allowHotStorageCache block.mBlockHeader := by
  have hshows := (walksOwnBranch_iff_shows htree hfaithful).mp hwalks
  have hindexed : _ ↔ bm.IndexNamesNearest getID omitHardForkBlocks chain block.mBlockHeader :=
    indexNamesNearest_iff htree hfaithful.stored
  constructor
  · rintro ⟨turns, found, hrun, hnearest⟩
    obtain ⟨cached, hloop⟩ := cached_of_getKeyBlockForBlock hpos hchain hrun
    obtain ⟨j, hstops, hentry⟩ := stopsAt_of_flatCacheLoop hloop
    refine ⟨j, hstops, ?_⟩
    cases cached with
    | some current =>
        rw [getKeyBlockForBlock_cached hpos hchain hloop] at hrun
        cases hrun
        obtain ⟨k, hat⟩ := nearestKeyBlock_eq_some_iff.mp hnearest.symm
        exact .inl ⟨current, k, hentry, hat⟩
    | none =>
        refine .inr ⟨hentry, ?_⟩
        cases allowHotStorageCache with
        | false =>
            rw [getKeyBlockForBlock_cold hpos hchain hloop] at hrun
            cases hrun
            exact .inr (hindexed.mp hnearest)
        | true =>
            rcases parentLoop_nearest htree turns block hfaithful hshows with
              ⟨hnone, -⟩ | ⟨walked, hwalk, hwalked⟩
            · exact absurd hnone (walked_of_getKeyBlockForBlock hpos hchain hloop hrun)
            · rw [getKeyBlockForBlock_walked hpos hchain hloop hwalk] at hrun
              cases hrun
              exact ((or_names_nearest hwalked).mp hnearest).imp
                (fun hsome => ⟨rfl, nearestKeyBlock_ne_none_iff.mp hsome⟩) hindexed.mp
  · rintro ⟨j, hstops, hcase⟩
    obtain ⟨turns, hturns, henough⟩ : ∃ turns, cacheStart block.mBlockHeader - j < turns ∧
        block.mBlockHeader.getHeight < turns :=
      ⟨cacheStart block.mBlockHeader - j + block.mBlockHeader.getHeight + 1, by omega, by omega⟩
    have hloop := flatCacheLoop_of_stopsAt hstops hturns
    rcases hcase with ⟨current, k, hentry, hat⟩ | ⟨hentry, hcase⟩
    · rw [hentry] at hloop
      exact ⟨_, some current, getKeyBlockForBlock_cached hpos hchain hloop _,
        (nearestKeyBlock_eq_some_iff.mpr ⟨k, hat⟩).symm⟩
    · rw [hentry] at hloop
      cases allowHotStorageCache with
      | false =>
          have hindex : bm.IndexNamesNearest getID omitHardForkBlocks chain block.mBlockHeader := by
            simpa using hcase
          exact ⟨_, _, getKeyBlockForBlock_cold hpos hchain hloop, hindexed.mpr hindex⟩
      | true =>
          rcases parentLoop_nearest htree turns block hfaithful hshows with
            ⟨-, hle⟩ | ⟨walked, hwalk, hwalked⟩
          · exact absurd hle (by omega)
          · refine ⟨_, _, getKeyBlockForBlock_walked hpos hchain hloop hwalk, ?_⟩
            exact (or_names_nearest hwalked).mpr
              (hcase.imp (fun hsome => nearestKeyBlock_ne_none_iff.mpr hsome.2) hindexed.mpr)

/-- The key block of a block is the nearest one exactly where the cache, or behind a missing entry the
index, names it. -/
theorem findsKeyBlock_iff (bm : KeyBlockLookup Trie) (getID : CBlockHeader Trie → Bytes)
    (getDifficulty : CBlockHeader Trie → ℕ) (htree : bm.Tree getID getDifficulty)
    (block : LiveBlock Trie) (hfaithful : block.Faithful bm.toBlockLookup getID getDifficulty)
    (hwalks : WalksOwnBranch bm.toBlockLookup block) (omitHardForkBlocks : Bool)
    (chain : eKeyBlockChain) (allowHotStorageCache : Bool) :
    bm.FindsKeyBlock block omitHardForkBlocks chain allowHotStorageCache ↔
      bm.StateNamesNearest getID omitHardForkBlocks chain allowHotStorageCache block.mBlockHeader := by
  unfold StateNamesNearest
  split_ifs with hzero hchain
  · constructor
    · rintro ⟨turns, found, hrun, hnearest⟩
      rw [getKeyBlockForBlock_zero hzero] at hrun
      cases hrun
      exact nearestKeyBlock_eq_none_iff.mp hnearest.symm
    · intro hnone
      exact ⟨0, none, getKeyBlockForBlock_zero hzero _ _, (nearestKeyBlock_eq_none_iff.mpr hnone).symm⟩
  · exact findsKeyBlock_iff_stopsAt htree hfaithful hwalks hzero hchain _
  · rw [Bool.not_eq_true] at hchain
    constructor
    · rintro ⟨turns, found, hrun, hnearest⟩
      rw [getKeyBlockForBlock_index hzero hchain] at hrun
      cases hrun
      exact (indexNamesNearest_iff htree hfaithful.stored).mp hnearest
    · intro hindex
      exact ⟨0, _, getKeyBlockForBlock_index hzero hchain _,
        (indexNamesNearest_iff htree hfaithful.stored).mpr hindex⟩

/-! ### The first epoch -/

/-- The small tree, with the first block as its only key block. -/
def branchKeyBlocks : KeyBlockLookup Unit where
  toBlockLookup := branchLookup
  mKeyBlockCacheFlat := []
  mVerifiedKeyBlockIDsAtHeights := [List.replicate 32 0]
  mHeaviestKeyBlockIDsAtHeights := [List.replicate 32 0]

theorem branchKeyBlocks_nearest (omitHardForkBlocks : Bool) :
    branchKeyBlocks.nearestKeyBlock omitHardForkBlocks mainTip.mBlockHeader =
      if omitHardForkBlocks then none else some (branchHeader 0 0 0) := by
  cases omitHardForkBlocks <;> rfl

theorem mainTip_faithful : mainTip.Faithful branchLookup branchID fun _ => 1 :=
  fresh_faithful (by simp [branchHeaders])

theorem mainTip_walksOwnBranch : WalksOwnBranch branchLookup mainTip := by
  rw [walksOwnBranch_iff_shows branchLookup_tree mainTip_faithful, pointerEnd_of_none rfl]
  exact branchLookup_tree.ancestry_shows 2 mainTip.mBlockHeader rfl rfl rfl

/-- Where hard-fork blocks are omitted, no key block is below the data blocks of the first epoch. -/
theorem findsKeyBlock_omitted : branchKeyBlocks.FindsKeyBlock mainTip true .verified true := by
  rw [findsKeyBlock_iff branchKeyBlocks branchID (fun _ => 1) branchLookup_tree mainTip
    mainTip_faithful mainTip_walksOwnBranch]
  exact nearestKeyBlock_eq_none_iff.mp (branchKeyBlocks_nearest true)

/-- For a data block of the first epoch nothing is returned, though the first block is a key block. -/
theorem not_findsKeyBlock_firstEpoch :
    branchKeyBlocks.Tree branchID (fun _ => 1) ∧ mainTip.Faithful branchLookup branchID (fun _ => 1) ∧
      WalksOwnBranch branchLookup mainTip ∧
      branchKeyBlocks.nearestKeyBlock false mainTip.mBlockHeader = some (branchHeader 0 0 0) ∧
      branchKeyBlocks.getKeyBlockForBlock 0 mainTip false .verified true = some (.ok none) ∧
      ¬ branchKeyBlocks.FindsKeyBlock mainTip false .verified true := by
  refine ⟨branchLookup_tree, mainTip_faithful, mainTip_walksOwnBranch, rfl, rfl, ?_⟩
  rintro ⟨turns, found, hrun, hnearest⟩
  rw [getKeyBlockForBlock_zero (by decide)] at hrun
  cases hrun
  rw [branchKeyBlocks_nearest false] at hnearest
  cases hnearest

end KeyBlockLookup

end Gridnet
