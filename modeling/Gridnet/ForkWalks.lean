import Gridnet.GuardedScan
import Gridnet.ParentLookup

/-! Parents over a tree of stored blocks with forks: a block's own ancestors, the blocks that the
look-up over the main chain shows instead, and exactly when the two agree. -/

namespace Gridnet

variable {Trie : Type}

namespace BlockLookup

variable (bm : BlockLookup Trie)

/-! ### Ancestors -/

/-- The parent that a header names, where the storage has it. -/
def ownParent (header : CBlockHeader Trie) : Option (CBlockHeader Trie) :=
  if header.getHeight = 0 ∨ header.getParentID.length = 0 then none
  else bm.getBlockByHash header.getParentID

/-- A header and at most `n` of its ancestors. -/
def lineage : (n : ℕ) → CBlockHeader Trie → List (CBlockHeader Trie)
  | 0, header => [header]
  | n + 1, header =>
      match bm.ownParent header with
      | none => [header]
      | some parent => header :: lineage n parent

/-- A header and all its stored ancestors. -/
def ancestry (header : CBlockHeader Trie) : List (CBlockHeader Trie) :=
  bm.lineage header.getHeight header

/-- The work of a header and all its ancestors; `none` where they do not reach the first block. -/
def ownWork (getDifficulty : CBlockHeader Trie → ℕ) (header : CBlockHeader Trie) : Option ℕ :=
  LiveBlock.workAlong getDifficulty ((bm.ancestry header).map fun header => { mBlockHeader := header })

/-- The main chain has no block where the parent of a header would be, or has its parent there. -/
def ShowsParent (header : CBlockHeader Trie) : Prop :=
  header.getHeight ≠ 0 → header.getParentID.length ≠ 0 →
    ∀ hash, bm.mVerifiedPath[header.getHeight - 1]? = some hash → hash = header.getParentID

end BlockLookup

namespace LiveBlock

/-- The last block that the pointers to parents lead to. -/
def pointerEnd : LiveBlock Trie → LiveBlock Trie
  | ⟨mBlockHeader, none, mTotalWorkDone⟩ => ⟨mBlockHeader, none, mTotalWorkDone⟩
  | ⟨_, some mParentBlock, _⟩ => pointerEnd mParentBlock

/-- A block in memory that is stored, with its own parent behind its pointer and its own total work
where one is recorded. -/
inductive Faithful (bm : BlockLookup Trie) (getID : CBlockHeader Trie → Bytes)
    (getDifficulty : CBlockHeader Trie → ℕ) : LiveBlock Trie → Prop
  | mk (block : LiveBlock Trie)
      (hstored : bm.getBlockByHash (getID block.mBlockHeader) = some block.mBlockHeader)
      (hpointer : ∀ parent, block.mParentBlock = some parent →
        bm.ownParent block.mBlockHeader = some parent.mBlockHeader)
      (hparent : ∀ parent, block.mParentBlock = some parent →
        Faithful bm getID getDifficulty parent)
      (hwork : block.mTotalWorkDone ≠ 0 →
        bm.ownWork getDifficulty block.mBlockHeader = some block.mTotalWorkDone) :
      Faithful bm getID getDifficulty block

end LiveBlock

namespace BlockLookup

/-- The blocks of the storage form a tree, one branch of it is the main chain, and the cache holds
blocks of the main chain. -/
structure Tree (bm : BlockLookup Trie) (getID : CBlockHeader Trie → Bytes)
    (getDifficulty : CBlockHeader Trie → ℕ) : Prop where
  keyed : ∀ {hash header}, bm.getBlockByHash hash = some header → getID header = hash
  named : ∀ {hash header}, bm.getBlockByHash hash = some header → hash.length = 32
  heights : ∀ {hash header parent}, bm.getBlockByHash hash = some header →
    bm.ownParent header = some parent → parent.getHeight + 1 = header.getHeight
  path : ∀ {k : ℕ} {hash}, bm.mVerifiedPath[k]? = some hash →
    ∃ header, bm.getBlockByHash hash = some header ∧ header.getHeight = k
  chained : ∀ {k : ℕ} {hash header}, bm.mVerifiedPath[k + 1]? = some hash →
    bm.getBlockByHash hash = some header → bm.mVerifiedPath[k]? = some header.getParentID
  cached : ∀ {k : ℕ} {block}, bm.getBlockFlatCache k = some block →
    bm.mVerifiedPath[k]? = some (getID block.mBlockHeader) ∧
      block.Faithful bm getID getDifficulty

variable {bm : BlockLookup Trie} {getID : CBlockHeader Trie → Bytes}
  {getDifficulty : CBlockHeader Trie → ℕ}

theorem ownParent_some {header parent : CBlockHeader Trie} (hparent : bm.ownParent header = some parent) :
    header.getHeight ≠ 0 ∧ header.getParentID.length ≠ 0 ∧
      bm.getBlockByHash header.getParentID = some parent := by
  unfold ownParent at hparent
  split_ifs at hparent with hroot
  push Not at hroot
  exact ⟨hroot.1, hroot.2, hparent⟩

theorem ownParent_eq {header : CBlockHeader Trie} (hheight : header.getHeight ≠ 0)
    (hnamed : header.getParentID.length ≠ 0) :
    bm.ownParent header = bm.getBlockByHash header.getParentID := by
  unfold ownParent
  rw [if_neg (by tauto)]

/-- The recursion over the ancestors of a stored header. -/
theorem Tree.ancestry_eq (htree : bm.Tree getID getDifficulty) {hash : Bytes}
    {header : CBlockHeader Trie} (hstored : bm.getBlockByHash hash = some header) :
    bm.ancestry header =
      match bm.ownParent header with
      | none => [header]
      | some parent => header :: bm.ancestry parent := by
  unfold ancestry
  cases hparent : bm.ownParent header with
  | none => cases header.getHeight <;> simp [lineage, hparent]
  | some parent =>
      have hheight : parent.getHeight + 1 = header.getHeight := htree.heights hstored hparent
      rw [← hheight]
      simp [lineage, hparent]

theorem Tree.ancestry_self (htree : bm.Tree getID getDifficulty) {hash : Bytes}
    {header : CBlockHeader Trie} (hstored : bm.getBlockByHash hash = some header) :
    header ∈ bm.ancestry header := by
  rw [htree.ancestry_eq hstored]
  cases bm.ownParent header <;> simp

theorem Tree.ancestry_head (htree : bm.Tree getID getDifficulty) {hash : Bytes}
    {header : CBlockHeader Trie} (hstored : bm.getBlockByHash hash = some header) :
    (bm.ancestry header).head? = some header := by
  rw [htree.ancestry_eq hstored]
  cases bm.ownParent header <;> rfl

theorem Tree.ancestry_parent (htree : bm.Tree getID getDifficulty) {hash : Bytes}
    {header parent : CBlockHeader Trie} (hstored : bm.getBlockByHash hash = some header)
    (hparent : bm.ownParent header = some parent) :
    bm.ancestry header = header :: bm.ancestry parent := by
  rw [htree.ancestry_eq hstored, hparent]

/-! ### The main chain -/

/-- The parent of a block of the main chain is the block below it. -/
theorem Tree.showsParent_of_path (htree : bm.Tree getID getDifficulty) {header : CBlockHeader Trie}
    (hpath : bm.mVerifiedPath[header.getHeight]? = some (getID header))
    (hstored : bm.getBlockByHash (getID header) = some header) : bm.ShowsParent header := by
  intro hheight _ hash hhash
  obtain ⟨k, hk⟩ : ∃ k, header.getHeight = k + 1 := ⟨header.getHeight - 1, by omega⟩
  rw [hk] at hpath
  have hbelow : bm.mVerifiedPath[k]? = some header.getParentID := htree.chained hpath hstored
  rw [hk, Nat.add_sub_cancel] at hhash
  exact Option.some.inj (hhash.symm.trans hbelow)

/-- Below a block of the main chain, everything is on the main chain. -/
theorem Tree.ancestry_shows (htree : bm.Tree getID getDifficulty) :
    ∀ (n : ℕ) (header : CBlockHeader Trie), header.getHeight = n →
      bm.mVerifiedPath[n]? = some (getID header) → bm.getBlockByHash (getID header) = some header →
      ∀ above ∈ bm.ancestry header, bm.ShowsParent above := by
  intro n
  induction n with
  | zero =>
      intro header hheight hpath hstored above habove
      have hnone : bm.ownParent header = none := by simp [ownParent, hheight]
      rw [htree.ancestry_eq hstored, hnone, List.mem_singleton] at habove
      rw [habove]
      intro hheight'
      exact absurd hheight hheight'
  | succ n ih =>
      intro header hheight hpath hstored above habove
      have hself : bm.ShowsParent header :=
        htree.showsParent_of_path (by rw [hheight]; exact hpath) hstored
      rw [htree.ancestry_eq hstored] at habove
      cases hparent : bm.ownParent header with
      | none =>
          rw [hparent, List.mem_singleton] at habove
          rw [habove]
          exact hself
      | some parent =>
          rw [hparent] at habove
          have hbelow : bm.mVerifiedPath[n]? = some header.getParentID := htree.chained hpath hstored
          have hstored' := (ownParent_some hparent).2.2
          have hid : getID parent = header.getParentID := htree.keyed hstored'
          have hheight' : parent.getHeight = n := by
            have := htree.heights hstored hparent
            omega
          cases habove with
          | head => exact hself
          | tail _ habove =>
              exact ih parent hheight' (by rw [hid]; exact hbelow) (by rw [hid]; exact hstored')
                above habove

theorem Tree.faithful_fromStorage (htree : bm.Tree getID getDifficulty) {hash : Bytes}
    {block : LiveBlock Trie} (hblock : bm.fromStorage hash = some block) :
    block.Faithful bm getID getDifficulty ∧ getID block.mBlockHeader = hash ∧
      bm.getBlockByHash hash = some block.mBlockHeader ∧ block.mParentBlock = none := by
  obtain ⟨header, hheader, rfl⟩ := Option.map_eq_some_iff.mp hblock
  have hid : getID header = hash := htree.keyed hheader
  refine ⟨.mk _ ?_ ?_ ?_ ?_, hid, hheader, rfl⟩
  · rw [hid]
    exact hheader
  · intro parent hparent
    cases hparent
  · intro parent hparent
    cases hparent
  · intro hwork
    exact absurd rfl hwork

theorem Tree.fromStorage_path (htree : bm.Tree getID getDifficulty) {k : ℕ} {hash : Bytes}
    (hpath : bm.mVerifiedPath[k]? = some hash) :
    ∃ header, bm.fromStorage hash = some { mBlockHeader := header } ∧ getID header = hash ∧
      header.getHeight = k := by
  obtain ⟨header, hstored, hheight⟩ := htree.path hpath
  exact ⟨header, by simp [fromStorage, hstored], htree.keyed hstored, hheight⟩

/-- Where the main chain has a block, the look-up at its height returns that block. -/
theorem Tree.getBlockAtHeight_some (htree : bm.Tree getID getDifficulty) {k : ℕ} {hash : Bytes}
    (hpath : bm.mVerifiedPath[k]? = some hash) :
    ∃ block, bm.getBlockAtHeight k = .ok (some block) ∧ getID block.mBlockHeader = hash ∧
      block.Faithful bm getID getDifficulty ∧
      (block.mParentBlock = none ∨ bm.getBlockFlatCache k = some block) := by
  unfold getBlockAtHeight
  cases hcache : bm.getBlockFlatCache k with
  | some fastBlock =>
      obtain ⟨hid, hfaithful⟩ := htree.cached hcache
      have hhash : getID fastBlock.mBlockHeader = hash := Option.some.inj (hid.symm.trans hpath)
      exact ⟨fastBlock, rfl, hhash, hfaithful, .inr rfl⟩
  | none =>
      have hlt : k < bm.mVerifiedPath.length := (List.getElem?_eq_some_iff.mp hpath).1
      obtain ⟨header, hfresh, hid, _⟩ := htree.fromStorage_path hpath
      have hfaithful := (htree.faithful_fromStorage hfresh).1
      have hnamed : hash.length = 32 := by
        obtain ⟨stored, hstored, _⟩ := htree.path hpath
        exact htree.named hstored
      have hcold : bm.coldStorageAccess k = some { mBlockHeader := header } := by
        have hempty : hash.isEmpty = false := by
          cases hash with
          | nil => cases hnamed
          | cons b rest => rfl
        simp [coldStorageAccess, hpath, hempty, hfresh]
      obtain ⟨genesis, hgenesis⟩ : ∃ genesis, bm.mVerifiedPath[0]? = some genesis :=
        ⟨_, List.getElem?_eq_getElem (by omega)⟩
      obtain ⟨genesisHeader, hgenesisFresh, -, -⟩ := htree.fromStorage_path hgenesis
      have hdirect : bm.getBlockAtHeightSSDirect 0 = some { mBlockHeader := genesisHeader } := by
        simp [getBlockAtHeightSSDirect, hgenesis, hgenesisFresh]
      have hhot : (if k = 0 then some { mBlockHeader := genesisHeader } else bm.coldStorageAccess k) =
          some { mBlockHeader := header } := by
        by_cases hzero : k = 0
        · subst hzero
          rw [if_pos rfl, ← hgenesisFresh, ← hfresh, Option.some.inj (hgenesis.symm.trans hpath)]
        · rw [if_neg hzero, hcold]
      refine ⟨{ mBlockHeader := header }, ?_, hid, hfaithful, .inl rfl⟩
      show (if bm.mVerifiedPath.length = 0 ∨ bm.mVerifiedPath.length ≤ k then _ else _) = _
      rw [if_neg (by omega)]
      by_cases hsmall : 0 < bm.getMaxNrOfPrunedBlocksToKeepInMemory ∧
          k < bm.getMaxNrOfPrunedBlocksToKeepInMemory
      · rw [if_pos hsmall, hdirect]
        exact congrArg Except.ok hhot
      · rw [if_neg hsmall]
        exact congrArg Except.ok hcold

theorem Tree.getBlockAtHeight_none (htree : bm.Tree getID getDifficulty) {k : ℕ}
    (hpath : bm.mVerifiedPath[k]? = none) : bm.getBlockAtHeight k = .ok none := by
  unfold getBlockAtHeight
  cases hcache : bm.getBlockFlatCache k with
  | some fastBlock =>
      have hid := (htree.cached hcache).1
      rw [hpath] at hid
      cases hid
  | none =>
      have hle : bm.mVerifiedPath.length ≤ k := List.getElem?_eq_none_iff.mp hpath
      simp [hle]

end BlockLookup

namespace LiveBlock

open BlockLookup

variable {bm : BlockLookup Trie} {getID : CBlockHeader Trie → Bytes}
  {getDifficulty : CBlockHeader Trie → ℕ}

theorem pointerEnd_of_none {block : LiveBlock Trie} (hnone : block.mParentBlock = none) :
    block.pointerEnd = block := by
  obtain ⟨header, parent, work⟩ := block
  cases hnone
  simp [pointerEnd]

theorem pointerEnd_of_some {block parent : LiveBlock Trie} (hsome : block.mParentBlock = some parent) :
    block.pointerEnd = parent.pointerEnd := by
  obtain ⟨header, pointer, work⟩ := block
  cases hsome
  simp [pointerEnd]

theorem Faithful.stored {block : LiveBlock Trie} (hfaithful : block.Faithful bm getID getDifficulty) :
    bm.getBlockByHash (getID block.mBlockHeader) = some block.mBlockHeader := by
  cases hfaithful
  assumption

theorem Faithful.work {block : LiveBlock Trie} (hfaithful : block.Faithful bm getID getDifficulty)
    (hknown : block.mTotalWorkDone ≠ 0) :
    bm.ownWork getDifficulty block.mBlockHeader = some block.mTotalWorkDone := by
  cases hfaithful with
  | mk _ _ _ _ hwork => exact hwork hknown

theorem Faithful.pointer {block parent : LiveBlock Trie}
    (hfaithful : block.Faithful bm getID getDifficulty) (hparent : block.mParentBlock = some parent) :
    bm.ownParent block.mBlockHeader = some parent.mBlockHeader := by
  cases hfaithful with
  | mk _ _ hpointer _ _ => exact hpointer parent hparent

/-- Following the pointers stays among a block's own ancestors. -/
theorem Faithful.ancestry_pointerEnd (htree : bm.Tree getID getDifficulty) {block : LiveBlock Trie}
    (hfaithful : block.Faithful bm getID getDifficulty) :
    ∀ above ∈ bm.ancestry block.pointerEnd.mBlockHeader, above ∈ bm.ancestry block.mBlockHeader := by
  induction hfaithful with
  | mk block hstored hpointer _ _ ih =>
      cases hparent : block.mParentBlock with
      | none =>
          rw [pointerEnd_of_none hparent]
          exact fun above habove => habove
      | some parent =>
          rw [pointerEnd_of_some hparent]
          intro above habove
          rw [htree.ancestry_parent hstored (hpointer parent hparent)]
          exact List.mem_cons_of_mem _ (ih parent hparent above habove)

/-! ### One step -/

theorem getParent_root {block : LiveBlock Trie}
    (hroot : block.mBlockHeader.getHeight = 0 ∨ block.mBlockHeader.getParentID.length = 0)
    (result : eBlockInstantiationResult) (useColdStorage instantiateTries : Bool) :
    (block.getParent bm result useColdStorage instantiateTries).map Prod.fst = .ok none := by
  unfold getParent
  by_cases hheight : block.mBlockHeader.getHeight = 0
  · simp [hheight, Except.map]
  · have hnamed : block.mBlockHeader.getParentID.length = 0 := by tauto
    simp [hheight, hnamed, Except.map]

theorem getParent_pointer {block parent : LiveBlock Trie} (hsome : block.mParentBlock = some parent)
    (hheight : block.mBlockHeader.getHeight ≠ 0) (hnamed : block.mBlockHeader.getParentID.length ≠ 0)
    (result : eBlockInstantiationResult) (useColdStorage instantiateTries : Bool) :
    block.getParent bm result useColdStorage instantiateTries =
      .ok (some parent, .blockFetchedFromCache) := by
  simp [getParent, hheight, hnamed, hsome]

/-- Without a pointer, the block of the main chain at the height below is returned, if there is one. -/
theorem getParent_shown (htree : bm.Tree getID getDifficulty) {block : LiveBlock Trie}
    (hnone : block.mParentBlock = none) (hheight : block.mBlockHeader.getHeight ≠ 0)
    (hnamed : block.mBlockHeader.getParentID.length ≠ 0) {hash : Bytes}
    (hpath : bm.mVerifiedPath[block.mBlockHeader.getHeight - 1]? = some hash) :
    ∃ parent, (∀ result useColdStorage instantiateTries,
        block.getParent bm result useColdStorage instantiateTries = .ok (some parent, result)) ∧
      getID parent.mBlockHeader = hash ∧ parent.Faithful bm getID getDifficulty := by
  obtain ⟨parent, hparent, hid, hfaithful, -⟩ := htree.getBlockAtHeight_some hpath
  refine ⟨parent, ?_, hid, hfaithful⟩
  intro result useColdStorage instantiateTries
  unfold getParent
  rw [if_neg hheight, if_neg hnamed, hnone]
  simp only [hparent]
  rfl

/-- Where the main chain is too short, the parent comes from the storage. -/
theorem getParent_stored (htree : bm.Tree getID getDifficulty) {block : LiveBlock Trie}
    (hnone : block.mParentBlock = none) (hheight : block.mBlockHeader.getHeight ≠ 0)
    (hnamed : block.mBlockHeader.getParentID.length ≠ 0)
    (hpath : bm.mVerifiedPath[block.mBlockHeader.getHeight - 1]? = none)
    (result : eBlockInstantiationResult) (useColdStorage instantiateTries : Bool) :
    (block.getParent bm result useColdStorage instantiateTries).map Prod.fst =
      .ok (if useColdStorage then bm.fromStorage block.mBlockHeader.getParentID else none) := by
  unfold getParent
  rw [if_neg hheight, if_neg hnamed, hnone]
  simp only [htree.getBlockAtHeight_none hpath]
  have hpos : 0 < block.mBlockHeader.getParentID.length := Nat.pos_of_ne_zero hnamed
  cases useColdStorage with
  | true =>
      show Except.map Prod.fst (if 0 < block.mBlockHeader.getParentID.length ∧ true then _ else _) = _
      rw [if_pos ⟨hpos, rfl⟩]
      rfl
  | false =>
      show Except.map Prod.fst (if 0 < block.mBlockHeader.getParentID.length ∧ false then _ else _) = _
      rw [if_neg (by simp)]
      rfl

/-- One turn of a walk: the block has no parent in the storage and none is shown for it, or the walk
goes on at a block with its own parent's header, or at another block of the main chain. -/
theorem parentOf_cases (htree : bm.Tree getID getDifficulty) {block : LiveBlock Trie}
    (hfaithful : block.Faithful bm getID getDifficulty) (instantiateTries : Bool) :
    (block.parentOf bm true instantiateTries = .ok none ∧ bm.ownParent block.mBlockHeader = none ∧
        block.mParentBlock = none ∧ bm.ShowsParent block.mBlockHeader) ∨
      (∃ parent, block.parentOf bm true instantiateTries = .ok (some parent) ∧
        parent.Faithful bm getID getDifficulty ∧
        bm.ownParent block.mBlockHeader = some parent.mBlockHeader ∧
        (block.mParentBlock = some parent ∨
          block.mParentBlock = none ∧ bm.ShowsParent block.mBlockHeader ∧
            (parent.mParentBlock = none ∨
              bm.mVerifiedPath[parent.mBlockHeader.getHeight]? = some (getID parent.mBlockHeader)))) ∨
      ∃ parent, block.parentOf bm true instantiateTries = .ok (some parent) ∧
        block.mParentBlock = none ∧ bm.ownParent block.mBlockHeader ≠ some parent.mBlockHeader ∧
        ¬ bm.ShowsParent block.mBlockHeader := by
  obtain ⟨_, hstored, hpointer, hparents, _⟩ := hfaithful
  cases hparent : block.mParentBlock with
  | some parent =>
      have hown := hpointer parent hparent
      obtain ⟨hheight, hnamed, _⟩ := ownParent_some hown
      refine .inr (.inl ⟨parent, ?_, hparents parent hparent, hown, .inl rfl⟩)
      unfold parentOf
      rw [getParent_pointer hparent hheight hnamed]
      rfl
  | none =>
      by_cases hroot : block.mBlockHeader.getHeight = 0 ∨ block.mBlockHeader.getParentID.length = 0
      · refine .inl ⟨getParent_root hroot _ _ _, ?_, rfl, ?_⟩
        · unfold ownParent
          rw [if_pos hroot]
        · intro hheight hnamed
          exact absurd hroot (by tauto)
      · push Not at hroot
        obtain ⟨hheight, hnamed⟩ := hroot
        have hown : bm.ownParent block.mBlockHeader = bm.getBlockByHash block.mBlockHeader.getParentID :=
          ownParent_eq hheight hnamed
        cases hpath : bm.mVerifiedPath[block.mBlockHeader.getHeight - 1]? with
        | none =>
            have hshows : bm.ShowsParent block.mBlockHeader := by
              intro _ _ hash hhash
              rw [hpath] at hhash
              cases hhash
            have hlookup : block.parentOf bm true instantiateTries =
                .ok (bm.fromStorage block.mBlockHeader.getParentID) :=
              getParent_stored htree hparent hheight hnamed hpath _ true instantiateTries
            cases hfresh : bm.fromStorage block.mBlockHeader.getParentID with
            | none =>
                refine .inl ⟨by rw [hlookup, hfresh], ?_, rfl, hshows⟩
                rw [hown]
                exact Option.map_eq_none_iff.mp hfresh
            | some parent =>
                obtain ⟨hfaithful, -, hheader, hfresh'⟩ := htree.faithful_fromStorage hfresh
                exact .inr (.inl ⟨parent, by rw [hlookup, hfresh], hfaithful, by rw [hown, hheader],
                  .inr ⟨rfl, hshows, .inl hfresh'⟩⟩)
        | some hash =>
            obtain ⟨parent, hlookup, hid, hfaithful⟩ :=
              getParent_shown htree hparent hheight hnamed hpath
            have hlookup' : block.parentOf bm true instantiateTries = .ok (some parent) := by
              unfold parentOf
              rw [hlookup]
              rfl
            have hstored' : bm.getBlockByHash hash = some parent.mBlockHeader := by
              rw [← hid]
              exact hfaithful.stored
            have hheight' : parent.mBlockHeader.getHeight = block.mBlockHeader.getHeight - 1 := by
              obtain ⟨header, hheader, hat⟩ := htree.path hpath
              rw [hstored'] at hheader
              cases hheader
              exact hat
            by_cases hsame : hash = block.mBlockHeader.getParentID
            · refine .inr (.inl ⟨parent, hlookup', hfaithful, ?_, .inr ⟨rfl, ?_, .inr ?_⟩⟩)
              · rw [hown, ← hsame, hstored']
              · intro _ _ shown hshown
                rw [hpath] at hshown
                cases hshown
                exact hsame
              · rw [hheight', hid, hpath]
            · refine .inr (.inr ⟨parent, hlookup', rfl, ?_, ?_⟩)
              · rw [hown]
                intro hfound
                exact hsame (hid.symm.trans (htree.keyed hfound))
              · intro hshows
                exact hsame (hshows hheight hnamed hash hpath)

/-- A step to the block's own parent leaves a smaller part of the condition to meet. -/
theorem shows_of_parent (htree : bm.Tree getID getDifficulty) {block parent : LiveBlock Trie}
    (hfaithful : block.Faithful bm getID getDifficulty)
    (hparent : parent.Faithful bm getID getDifficulty)
    (hown : bm.ownParent block.mBlockHeader = some parent.mBlockHeader)
    (hpointer : block.mParentBlock = some parent ∨ block.mParentBlock = none)
    (hshows : ∀ above ∈ bm.ancestry block.pointerEnd.mBlockHeader, bm.ShowsParent above) :
    ∀ above ∈ bm.ancestry parent.pointerEnd.mBlockHeader, bm.ShowsParent above := by
  cases hpointer with
  | inl hsome =>
      rw [pointerEnd_of_some hsome] at hshows
      exact hshows
  | inr hnone =>
      rw [pointerEnd_of_none hnone, htree.ancestry_parent hfaithful.stored hown] at hshows
      intro above habove
      exact hshows above (List.mem_cons_of_mem _ (hparent.ancestry_pointerEnd htree above habove))

/-! ### Walks -/

theorem walk_none {instantiateTries : Bool} {n : ℕ} {block : LiveBlock Trie}
    (hlookup : block.parentOf bm true instantiateTries = .ok none) :
    block.walk bm instantiateTries (n + 1) = .ok [block] := by
  rw [walk, hlookup]
  rfl

theorem walk_some {instantiateTries : Bool} {n : ℕ} {block parent : LiveBlock Trie}
    (hlookup : block.parentOf bm true instantiateTries = .ok (some parent)) :
    block.walk bm instantiateTries (n + 1) =
      parent.walk bm instantiateTries n >>= fun visited => .ok (block :: visited) := by
  rw [walk, hlookup]
  rfl

theorem walk_head {instantiateTries : Bool} {n : ℕ} {block : LiveBlock Trie}
    {visited : List (LiveBlock Trie)} (hwalk : block.walk bm instantiateTries n = .ok visited) :
    visited.head? = some block := by
  cases n with
  | zero =>
      cases hwalk
      rfl
  | succ n =>
      obtain ⟨parent, _, hrest⟩ := ok_of_bind hwalk
      cases parent with
      | none =>
          cases hrest
          rfl
      | some parent =>
          obtain ⟨rest, _, hcons⟩ := ok_of_bind hrest
          cases hcons
          rfl

/-- Where every lookup shows the own parent, the walk visits the block's own ancestors and the work
computed along it is their work. -/
theorem walk_of_shows (htree : bm.Tree getID getDifficulty) (instantiateTries : Bool) :
    ∀ (n : ℕ) (block : LiveBlock Trie), block.mBlockHeader.getHeight = n →
      block.Faithful bm getID getDifficulty →
      (∀ above ∈ bm.ancestry block.pointerEnd.mBlockHeader, bm.ShowsParent above) →
      ∃ visited, block.walk bm instantiateTries n = .ok visited ∧
        visited.map mBlockHeader = bm.ancestry block.mBlockHeader := by
  intro n
  induction n with
  | zero =>
      intro block hheight hfaithful _
      have hroot : bm.ownParent block.mBlockHeader = none := by simp [ownParent, hheight]
      refine ⟨[block], rfl, ?_⟩
      rw [htree.ancestry_eq hfaithful.stored, hroot]
      rfl
  | succ n ih =>
      intro block hheight hfaithful hshows
      rcases parentOf_cases htree hfaithful instantiateTries with
        ⟨hlookup, hown, -, -⟩ | ⟨parent, hlookup, hparent, hown, hpointer⟩ |
        ⟨parent, -, hnone, -, hother⟩
      · refine ⟨[block], walk_none hlookup, ?_⟩
        rw [htree.ancestry_eq hfaithful.stored, hown]
        rfl
      · have hheight' : parent.mBlockHeader.getHeight = n := by
          have := htree.heights hfaithful.stored hown
          omega
        obtain ⟨visited, hwalk, hvisited⟩ := ih parent hheight' hparent
          (shows_of_parent htree hfaithful hparent hown (hpointer.imp_right And.left) hshows)
        refine ⟨block :: visited, ?_, ?_⟩
        · rw [walk_some hlookup, hwalk]
          rfl
        · rw [htree.ancestry_parent hfaithful.stored hown, List.map_cons, hvisited]
      · rw [pointerEnd_of_none hnone] at hshows
        exact absurd (hshows _ (htree.ancestry_self hfaithful.stored)) hother

/-- A walk over the block's own ancestors is only possible where every lookup shows the own parent. -/
theorem shows_of_walk (htree : bm.Tree getID getDifficulty) (instantiateTries : Bool) :
    ∀ (n : ℕ) (block : LiveBlock Trie), block.mBlockHeader.getHeight = n →
      block.Faithful bm getID getDifficulty →
      ∀ visited, block.walk bm instantiateTries n = .ok visited →
        visited.map mBlockHeader = bm.ancestry block.mBlockHeader →
        ∀ above ∈ bm.ancestry block.pointerEnd.mBlockHeader, bm.ShowsParent above := by
  intro n
  induction n with
  | zero =>
      intro block hheight hfaithful _ _ _ above habove
      have hsame := hfaithful.ancestry_pointerEnd htree above habove
      have hroot : bm.ownParent block.mBlockHeader = none := by simp [ownParent, hheight]
      rw [htree.ancestry_eq hfaithful.stored, hroot, List.mem_singleton] at hsame
      rw [hsame]
      intro hheight'
      exact absurd hheight hheight'
  | succ n ih =>
      intro block hheight hfaithful visited hwalk hvisited
      rcases parentOf_cases htree hfaithful instantiateTries with
        ⟨-, hown, hnone, hshows⟩ | ⟨parent, hlookup, hparent, hown, hpointer⟩ |
        ⟨parent, hlookup, hnone, hown, -⟩
      · rw [pointerEnd_of_none hnone, htree.ancestry_eq hfaithful.stored, hown]
        intro above habove
        rw [List.mem_singleton.mp habove]
        exact hshows
      · have hheight' : parent.mBlockHeader.getHeight = n := by
          have := htree.heights hfaithful.stored hown
          omega
        rw [walk_some hlookup] at hwalk
        obtain ⟨rest, hrest, hcons⟩ := ok_of_bind hwalk
        cases hcons
        rw [htree.ancestry_parent hfaithful.stored hown, List.map_cons] at hvisited
        have hshows := ih parent hheight' hparent rest hrest (List.cons.inj hvisited).2
        rcases hpointer with hsome | ⟨hnone, hself, hplace⟩
        · rw [pointerEnd_of_some hsome]
          exact hshows
        · rw [pointerEnd_of_none hnone, htree.ancestry_parent hfaithful.stored hown]
          intro above habove
          cases habove with
          | head => exact hself
          | tail _ habove =>
              cases hplace with
              | inl hfresh =>
                  rw [pointerEnd_of_none hfresh] at hshows
                  exact hshows above habove
              | inr hpath => exact htree.ancestry_shows _ _ rfl hpath hparent.stored above habove
      · rw [walk_some hlookup] at hwalk
        obtain ⟨rest, hrest, hcons⟩ := ok_of_bind hwalk
        cases hcons
        rw [htree.ancestry_eq hfaithful.stored] at hvisited
        have hfirst : (rest.map mBlockHeader).head? = some parent.mBlockHeader := by
          rw [List.head?_map, walk_head hrest]
          rfl
        cases hparent : bm.ownParent block.mBlockHeader with
        | none =>
            rw [hparent, List.map_cons] at hvisited
            rw [(List.cons.inj hvisited).2] at hfirst
            cases hfirst
        | some own =>
            rw [hparent, List.map_cons] at hvisited
            rw [(List.cons.inj hvisited).2, htree.ancestry_head (ownParent_some hparent).2.2] at hfirst
            rw [hparent] at hown
            exact absurd hfirst hown

theorem workAlong_known {block : LiveBlock Trie} (hknown : block.mTotalWorkDone ≠ 0) :
    workAlong getDifficulty [block] = some block.mTotalWorkDone := by
  simp [workAlong, hknown]

theorem workAlong_unknown {block : LiveBlock Trie} (hunknown : block.mTotalWorkDone = 0) :
    workAlong getDifficulty [block] =
      workAlong getDifficulty [{ mBlockHeader := block.mBlockHeader }] := by
  simp [workAlong, hunknown, isGenesis]

theorem workAlong_cons {block : LiveBlock Trie} {rest : List (LiveBlock Trie)} (hrest : rest ≠ []) :
    workAlong getDifficulty (block :: rest) =
      (workAlong getDifficulty rest).map fun totalDiff =>
        (totalDiff + getDifficulty block.mBlockHeader) % 2 ^ 64 := by
  cases rest with
  | nil => exact absurd rfl hrest
  | cons next rest => rfl

theorem ownWork_root (htree : bm.Tree getID getDifficulty) {hash : Bytes} {header : CBlockHeader Trie}
    (hstored : bm.getBlockByHash hash = some header) (hroot : bm.ownParent header = none) :
    bm.ownWork getDifficulty header = workAlong getDifficulty [{ mBlockHeader := header }] := by
  unfold ownWork
  rw [htree.ancestry_eq hstored, hroot]
  rfl

theorem ownWork_parent (htree : bm.Tree getID getDifficulty) {hash : Bytes}
    {header parent : CBlockHeader Trie} (hstored : bm.getBlockByHash hash = some header)
    (hown : bm.ownParent header = some parent) :
    bm.ownWork getDifficulty header =
      (bm.ownWork getDifficulty parent).map fun totalDiff =>
        (totalDiff + getDifficulty header) % 2 ^ 64 := by
  unfold ownWork
  rw [htree.ancestry_parent hstored hown, List.map_cons]
  apply workAlong_cons
  intro hempty
  have hhead := htree.ancestry_head (ownParent_some hown).2.2
  rw [List.map_eq_nil_iff.mp hempty] at hhead
  cases hhead

/-- Along the own ancestors the total work is theirs, whether or not some of it is known. -/
theorem work_of_shows (htree : bm.Tree getID getDifficulty) :
    ∀ (n : ℕ) (block : LiveBlock Trie), block.mBlockHeader.getHeight = n →
      block.Faithful bm getID getDifficulty →
      (∀ above ∈ bm.ancestry block.pointerEnd.mBlockHeader, bm.ShowsParent above) →
      ∃ visited, block.pathToKnownWork bm n = .ok visited ∧ visited ≠ [] ∧
        workAlong getDifficulty visited = bm.ownWork getDifficulty block.mBlockHeader := by
  intro n
  induction n with
  | zero =>
      intro block hheight hfaithful _
      have hroot : bm.ownParent block.mBlockHeader = none := by simp [ownParent, hheight]
      refine ⟨[block], rfl, by simp, ?_⟩
      by_cases hknown : block.mTotalWorkDone = 0
      · rw [workAlong_unknown hknown, ownWork_root htree hfaithful.stored hroot]
      · rw [workAlong_known hknown, hfaithful.work hknown]
  | succ n ih =>
      intro block hheight hfaithful hshows
      by_cases hknown : block.mTotalWorkDone = 0
      · rcases parentOf_cases htree hfaithful false with
          ⟨hlookup, hroot, -, -⟩ | ⟨parent, hlookup, hparent, hown, hpointer⟩ |
          ⟨parent, -, hnone, -, hother⟩
        · refine ⟨[block], ?_, by simp, ?_⟩
          · rw [pathToKnownWork, if_neg (by simp [hknown]), hlookup]
            rfl
          · rw [workAlong_unknown hknown, ownWork_root htree hfaithful.stored hroot]
        · have hheight' : parent.mBlockHeader.getHeight = n := by
            have := htree.heights hfaithful.stored hown
            omega
          obtain ⟨visited, hpath, hvisited, hwork⟩ := ih parent hheight' hparent
            (shows_of_parent htree hfaithful hparent hown (hpointer.imp_right And.left) hshows)
          refine ⟨block :: visited, ?_, by simp, ?_⟩
          · rw [pathToKnownWork, if_neg (by simp [hknown]), hlookup]
            show (parent.pathToKnownWork bm n >>= _) = _
            rw [hpath]
            rfl
          · rw [workAlong_cons hvisited, hwork, ownWork_parent htree hfaithful.stored hown]
        · rw [pointerEnd_of_none hnone] at hshows
          exact absurd (hshows _ (htree.ancestry_self hfaithful.stored)) hother
      · refine ⟨[block], ?_, by simp, ?_⟩
        · rw [pathToKnownWork, if_pos hknown]
        · rw [workAlong_known hknown, hfaithful.work hknown]

/-! ### The parent law -/

/-- Whatever the flags, a parent that is returned is the one the header names. -/
def ParentLaw (bm : BlockLookup Trie) (getID : CBlockHeader Trie → Bytes) (block : LiveBlock Trie) :
    Prop :=
  ∀ result useColdStorage instantiateTries parent result',
    block.getParent bm result useColdStorage instantiateTries = .ok (some parent, result') →
      getID parent.mBlockHeader = block.mBlockHeader.getParentID

/-- The walk over the parents visits the block's own ancestors. -/
def WalksOwnBranch (bm : BlockLookup Trie) (block : LiveBlock Trie) : Prop :=
  ∀ instantiateTries, ∃ visited,
    block.walk bm instantiateTries block.mBlockHeader.getHeight = .ok visited ∧
      visited.map mBlockHeader = bm.ancestry block.mBlockHeader

theorem parentLaw_iff_shows (htree : bm.Tree getID getDifficulty) {block : LiveBlock Trie}
    (hfaithful : block.Faithful bm getID getDifficulty) :
    ParentLaw bm getID block ↔
      (block.mParentBlock = none → bm.ShowsParent block.mBlockHeader) := by
  constructor
  · intro hlaw hnone hheight hnamed hash hpath
    obtain ⟨parent, hlookup, hid, _⟩ := getParent_shown htree hnone hheight hnamed hpath
    rw [← hid]
    exact hlaw .Failure true false parent .Failure (hlookup .Failure true false)
  · intro hshows result useColdStorage instantiateTries parent result' hlookup
    by_cases hroot : block.mBlockHeader.getHeight = 0 ∨ block.mBlockHeader.getParentID.length = 0
    · have hnothing : (block.getParent bm result useColdStorage instantiateTries).map Prod.fst = .ok none :=
        getParent_root hroot result useColdStorage instantiateTries
      rw [hlookup] at hnothing
      cases hnothing
    · push Not at hroot
      obtain ⟨hheight, hnamed⟩ := hroot
      cases hpointer : block.mParentBlock with
      | some pointer =>
          rw [getParent_pointer hpointer hheight hnamed] at hlookup
          cases hlookup
          exact htree.keyed (ownParent_some (hfaithful.pointer hpointer)).2.2
      | none =>
          cases hpath : bm.mVerifiedPath[block.mBlockHeader.getHeight - 1]? with
          | some hash =>
              obtain ⟨shown, hshown, hid, _⟩ := getParent_shown htree hpointer hheight hnamed hpath
              rw [hshown] at hlookup
              cases hlookup
              rw [hid]
              exact hshows hpointer hheight hnamed hash hpath
          | none =>
              have hstored := getParent_stored htree hpointer hheight hnamed hpath result
                useColdStorage instantiateTries
              rw [hlookup] at hstored
              cases useColdStorage with
              | false => cases hstored
              | true => exact (htree.faithful_fromStorage (Except.ok.inj hstored).symm).2.1

theorem walksOwnBranch_iff_shows (htree : bm.Tree getID getDifficulty) {block : LiveBlock Trie}
    (hfaithful : block.Faithful bm getID getDifficulty) :
    WalksOwnBranch bm block ↔
      ∀ above ∈ bm.ancestry block.pointerEnd.mBlockHeader, bm.ShowsParent above := by
  constructor
  · intro hwalks
    obtain ⟨visited, hwalk, hvisited⟩ := hwalks false
    exact shows_of_walk htree false _ block rfl hfaithful visited hwalk hvisited
  · intro hshows instantiateTries
    exact walk_of_shows htree instantiateTries _ block rfl hfaithful hshows

/-- A parent that is returned is the block's own exactly where its pointer is set or the main chain does
not show another block at the height below. A walk stays on the block's branch exactly where this holds
for all ancestors that it looks up, and the total work is then the branch's. -/
theorem parent_is_own_iff (bm : BlockLookup Trie) (getID : CBlockHeader Trie → Bytes)
    (getDifficulty : CBlockHeader Trie → ℕ) (htree : bm.Tree getID getDifficulty)
    (block : LiveBlock Trie) (hfaithful : block.Faithful bm getID getDifficulty) :
    (ParentLaw bm getID block ↔
        (block.mParentBlock = none → bm.ShowsParent block.mBlockHeader)) ∧
      (WalksOwnBranch bm block ↔
        ∀ above ∈ bm.ancestry block.pointerEnd.mBlockHeader, bm.ShowsParent above) ∧
      (WalksOwnBranch bm block →
        block.getTotaWorkDoneInt bm getDifficulty =
          .ok (bm.ownWork getDifficulty block.mBlockHeader)) := by
  refine ⟨parentLaw_iff_shows htree hfaithful, walksOwnBranch_iff_shows htree hfaithful, ?_⟩
  intro hwalks
  obtain ⟨visited, hpath, -, hwork⟩ := work_of_shows htree _ block rfl hfaithful
    ((walksOwnBranch_iff_shows htree hfaithful).mp hwalks)
  unfold getTotaWorkDoneInt
  rw [hpath, ← hwork]
  rfl

/-! ### A fork of depth two -/

/-- A header of a small tree: its height, the number of its parent and its own number. -/
def branchHeader (height parent number : ℕ) : CBlockHeader Unit where
  mVersion := 4
  mIsKeyBlock := height == 0
  fields
    | .mHeight => height
    | .mParentBlockID => if height = 0 then [] else List.replicate 32 (UInt8.ofNat parent)
    | .mNonce => number
    | f => f.kind.zero
  mTransactionsDB := ()
  mReceiptsDB := ()
  mVerifiablesDB := ()

def branchID (header : CBlockHeader Unit) : Bytes := List.replicate 32 (UInt8.ofNat header.getNonce)

/-- Two branches of two blocks over one first block. -/
def branchHeaders : List (CBlockHeader Unit) :=
  [branchHeader 0 0 0, branchHeader 1 0 1, branchHeader 2 1 2, branchHeader 1 0 3, branchHeader 2 3 4]

/-- The first branch is the main chain. -/
def branchLookup : BlockLookup Unit where
  mBlockCacheFlat := []
  mVerifiedPath := [List.replicate 32 0, List.replicate 32 1, List.replicate 32 2]
  getMaxNrOfPrunedBlocksToKeepInMemory := 0
  getBlockByHash hash := branchHeaders.find? fun header => branchID header = hash
  instantiationResult _ _ := .OK

def mainTip : LiveBlock Unit := { mBlockHeader := branchHeader 2 1 2 }

def forkTip : LiveBlock Unit := { mBlockHeader := branchHeader 2 3 4 }

theorem branchLookup_some {hash : Bytes} {header : CBlockHeader Unit}
    (hstored : branchLookup.getBlockByHash hash = some header) :
    branchID header = hash ∧ header ∈ branchHeaders := by
  have hfind : branchHeaders.find? (fun header => decide (branchID header = hash)) = some header :=
    hstored
  have hmatches := List.find?_some hfind
  exact ⟨of_decide_eq_true hmatches, List.mem_of_find?_eq_some hfind⟩

theorem branchLookup_stored :
    ∀ header ∈ branchHeaders, branchLookup.getBlockByHash (branchID header) = some header := by
  simp only [branchHeaders, List.forall_mem_cons]
  exact ⟨rfl, rfl, rfl, rfl, rfl, by simp⟩

theorem branch_heights : ∀ header ∈ branchHeaders, ∀ parent ∈ branchHeaders,
    header.getHeight ≠ 0 → branchID parent = header.getParentID →
      parent.getHeight + 1 = header.getHeight := by
  decide

theorem branchLookup_path {k : ℕ} {hash : Bytes} (hpath : branchLookup.mVerifiedPath[k]? = some hash) :
    ∃ header, branchLookup.getBlockByHash hash = some header ∧ header.getHeight = k := by
  match k with
  | 0 =>
      cases hpath
      exact ⟨branchHeader 0 0 0, rfl, rfl⟩
  | 1 =>
      cases hpath
      exact ⟨branchHeader 1 0 1, rfl, rfl⟩
  | 2 =>
      cases hpath
      exact ⟨branchHeader 2 1 2, rfl, rfl⟩
  | k + 3 => cases hpath

theorem branchLookup_tree : branchLookup.Tree branchID fun _ => 1 where
  keyed hstored := (branchLookup_some hstored).1
  named hstored := by
    rw [← (branchLookup_some hstored).1]
    exact List.length_replicate
  heights hstored hparent := by
    obtain ⟨hheight, _, hfound⟩ := ownParent_some hparent
    exact branch_heights _ (branchLookup_some hstored).2 _ (branchLookup_some hfound).2 hheight
      (branchLookup_some hfound).1
  path := branchLookup_path
  chained {k hash header} hpath hstored := by
    match k with
    | 0 =>
        cases hpath
        cases hstored
        rfl
    | 1 =>
        cases hpath
        cases hstored
        rfl
    | k + 2 => cases hpath
  cached hcached := by cases hcached

theorem fresh_faithful {header : CBlockHeader Unit} (hmem : header ∈ branchHeaders) :
    LiveBlock.Faithful branchLookup branchID (fun _ => 1) { mBlockHeader := header } :=
  .mk _ (branchLookup_stored header hmem) (nofun) (nofun) (fun hwork => absurd rfl hwork)

/-- On the main chain parents are the blocks' own. -/
theorem mainTip_parent_is_own :
    ParentLaw branchLookup branchID mainTip ∧ WalksOwnBranch branchLookup mainTip := by
  have htip : mainTip.Faithful branchLookup branchID fun _ => 1 := fresh_faithful (by simp [branchHeaders])
  obtain ⟨hlaw, hwalk, -⟩ :=
    parent_is_own_iff branchLookup branchID (fun _ => 1) branchLookup_tree mainTip htip
  have hshows : ∀ above ∈ branchLookup.ancestry mainTip.mBlockHeader,
      branchLookup.ShowsParent above :=
    branchLookup_tree.ancestry_shows 2 mainTip.mBlockHeader rfl rfl rfl
  refine ⟨hlaw.mpr fun _ => hshows _ (branchLookup_tree.ancestry_self htip.stored), hwalk.mpr ?_⟩
  rw [pointerEnd_of_none rfl]
  exact hshows

/-- The parent returned for the tip of the second branch is the block of the first. -/
theorem forkTip_parent_not_own :
    branchLookup.Tree branchID (fun _ => 1) ∧ forkTip.Faithful branchLookup branchID (fun _ => 1) ∧
      ¬ ParentLaw branchLookup branchID forkTip ∧ ¬ WalksOwnBranch branchLookup forkTip := by
  have htip : forkTip.Faithful branchLookup branchID fun _ => 1 := fresh_faithful (by simp [branchHeaders])
  have hother : ¬ branchLookup.ShowsParent forkTip.mBlockHeader := by
    intro hshows
    have hsame := hshows (by decide) (by decide) (List.replicate 32 1) rfl
    revert hsame
    decide
  refine ⟨branchLookup_tree, htip, ?_, ?_⟩
  · intro hlaw
    exact hother ((parentLaw_iff_shows branchLookup_tree htip).mp hlaw rfl)
  · intro hwalk
    have hshows := (walksOwnBranch_iff_shows branchLookup_tree htip).mp hwalk
    rw [pointerEnd_of_none rfl] at hshows
    exact hother (hshows _ (branchLookup_tree.ancestry_self htip.stored))

end LiveBlock

end Gridnet
