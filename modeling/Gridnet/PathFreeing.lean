import Gridnet.PointerWalks

/-! Blocks in memory, and how `CBlock::freePath` takes the path of a block apart. The loop goes on to the next parent
only where it prepares the blocks for removal; the block that the temporary pointer names is prepared with each of
them, which ends the walk there. -/

namespace Gridnet

/-- A block with its pointers; `Header` is what its pointer to the header leads to. -/
structure BlockNode (Header α : Type) where
  mBlockHeader : Header
  mPartOfMainCache : Bool := true
  mNext : Option α := none
  mTempNext : Option α := none
  deriving DecidableEq, Repr

/-- What is read and written of a header. -/
structure HeaderNode (α : Type) where
  mIsKeyBlock : Bool
  mHeight : ℕ
  getDifficulty : ℕ
  mParentBlock : Option α := none
  mBlock : Option α := none
  mTotalWorkDone : UInt64 := 0
  deriving DecidableEq, Repr

/-- `setParent(nullptr)` and `setBlock(nullptr)` -/
def HeaderNode.detach {α : Type} (header : HeaderNode α) : HeaderNode α :=
  { header with mParentBlock := none, mBlock := none }

namespace BlockNode

variable {Header α : Type}

/-- `detach` is what is done to the header, if there is one. -/
def prepareForRemoval (detach : Header → Header) (block : BlockNode Header α) : BlockNode Header α :=
  { block with mBlockHeader := detach block.mBlockHeader, mPartOfMainCache := false, mNext := none }

/-- The block but for its temporary pointer. -/
def withoutTemp (block : BlockNode Header α) : BlockNode Header α := { block with mTempNext := none }

end BlockNode

/-! ### Freeing -/

/-- The memory in which the path lies. A block need not have a header. -/
abbrev PathMemory (α : Type) : Type := α → BlockNode (Option (HeaderNode α)) α

variable {α : Type} [DecidableEq α]

namespace PathMemory

omit [DecidableEq α] in
def getParentPtr (memory : PathMemory α) (block : α) : Option α :=
  (memory block).mBlockHeader.bind HeaderNode.mParentBlock

def prepareForRemoval (memory : PathMemory α) (block : α) : PathMemory α :=
  Function.update memory block ((memory block).prepareForRemoval (Option.map HeaderNode.detach))

/-- One turn of the loop of `self`. -/
def freeTurn (self : α) (tempPathOnly : Bool) : PathMemory α × Option α → Bool × (PathMemory α × Option α)
  | (memory, none) => (false, (memory, none))
  | (memory, some currentBlock) =>
      match (memory currentBlock).mBlockHeader with
      | none => (false, (memory, some currentBlock))
      | some header =>
          let next := header.mParentBlock
          let (memory, currentBlock) :=
            if !tempPathOnly then (memory.prepareForRemoval currentBlock, next) else (memory, some currentBlock)
          let memory :=
            match (memory self).mTempNext with
            | none => memory
            | some mTempNext => memory.prepareForRemoval mTempNext
          (true, (memory, currentBlock))

/-- `freePath`: the blocks that its turns were taken at, and the memory; `none` where the fuel did not suffice. -/
def freePath (fuel : ℕ) (memory : PathMemory α) (self : α) (tempPathOnly : Bool) :
    Option (List α × PathMemory α) :=
  match (memory self).mBlockHeader with
  | none => some ([], memory)
  | some header =>
      (Loop.run (freeTurn self tempPathOnly) fuel (memory, header.mParentBlock)).map fun (turns, last) =>
        (turns.filterMap Prod.snd, last.1)

end PathMemory

/-- Nothing leads from the block to others, and it is no part of the cache. -/
structure BlockNode.Prepared (block : BlockNode (Option (HeaderNode α)) α) : Prop where
  detached : block.mBlockHeader.map HeaderNode.detach = block.mBlockHeader
  mPartOfMainCache : block.mPartOfMainCache = false
  mNext : block.mNext = none

namespace PathMemory

/-- The call returns after one turn at each ancestor, which is then prepared for removal; or only temporary pointers
were touched. -/
def Frees (memory : PathMemory α) (self : α) (tempPathOnly : Bool) (ancestors : List α) : Prop :=
  ∃ fuel after, memory.freePath fuel self tempPathOnly = some (ancestors, after) ∧
    (tempPathOnly = false → ∀ block ∈ ancestors, (after block).Prepared) ∧
    (tempPathOnly = true → ∀ block, (after block).withoutTemp = (memory block).withoutTemp)

/-- Every ancestor has a header, and the temporary pointer leads to none of those behind the parent that has a parent
in memory itself; where only the temporary path is freed there are none. -/
def Freeable (memory : PathMemory α) (self : α) (tempPathOnly : Bool) (ancestors : List α) : Prop :=
  if tempPathOnly then ancestors = []
  else
    (∀ block ∈ ancestors, (memory block).mBlockHeader.isSome = true) ∧
      ∀ mTempNext, (memory self).mTempNext = some mTempNext → mTempNext ∈ ancestors.tail →
        memory.getParentPtr mTempNext = none

/-! ### Preparing -/

variable {memory : PathMemory α} {a b self : α}

theorem prepareForRemoval_self (memory : PathMemory α) (b : α) :
    memory.prepareForRemoval b b = (memory b).prepareForRemoval (Option.map HeaderNode.detach) :=
  Function.update_self _ _ _

theorem prepareForRemoval_of_ne (hne : a ≠ b) : memory.prepareForRemoval b a = memory a :=
  Function.update_of_ne hne _ _

/-- The temporary pointers and the headers' presence stay. -/
theorem prepareForRemoval_mTempNext (memory : PathMemory α) (b a : α) :
    (memory.prepareForRemoval b a).mTempNext = (memory a).mTempNext := by
  by_cases hab : a = b
  · subst hab
    rw [prepareForRemoval_self]
    rfl
  · rw [prepareForRemoval_of_ne hab]

theorem prepareForRemoval_isSome (memory : PathMemory α) (b a : α) :
    (memory.prepareForRemoval b a).mBlockHeader.isSome = (memory a).mBlockHeader.isSome := by
  by_cases hab : a = b
  · subst hab
    rw [prepareForRemoval_self]
    exact Option.isSome_map
  · rw [prepareForRemoval_of_ne hab]

theorem getParentPtr_prepared (memory : PathMemory α) (b : α) :
    (memory.prepareForRemoval b).getParentPtr b = none := by
  rw [getParentPtr, prepareForRemoval_self]
  cases hheader : (memory b).mBlockHeader <;> simp [BlockNode.prepareForRemoval, hheader, HeaderNode.detach]

theorem getParentPtr_of_ne (hne : a ≠ b) : (memory.prepareForRemoval b).getParentPtr a = memory.getParentPtr a := by
  rw [getParentPtr, prepareForRemoval_of_ne hne]
  rfl

theorem prepared_self (memory : PathMemory α) (b : α) : (memory.prepareForRemoval b b).Prepared := by
  rw [prepareForRemoval_self]
  refine ⟨?_, rfl, rfl⟩
  cases hheader : (memory b).mBlockHeader <;> simp [BlockNode.prepareForRemoval, hheader, HeaderNode.detach]

theorem prepared_prepareForRemoval (hprepared : (memory a).Prepared) (b : α) :
    (memory.prepareForRemoval b a).Prepared := by
  by_cases hab : a = b
  · rw [hab]
    exact prepared_self memory b
  · rw [prepareForRemoval_of_ne hab]
    exact hprepared

/-! ### Turns -/

/-- What a turn does to the memory where it prepares a block for removal. -/
def afterTurn (memory : PathMemory α) (self b : α) : PathMemory α :=
  match (memory self).mTempNext with
  | none => memory.prepareForRemoval b
  | some mTempNext => (memory.prepareForRemoval b).prepareForRemoval mTempNext

theorem afterTurn_cases (memory : PathMemory α) (self b : α) :
    memory.afterTurn self b = memory.prepareForRemoval b ∨ ∃ mTempNext, (memory self).mTempNext = some mTempNext ∧
      memory.afterTurn self b = (memory.prepareForRemoval b).prepareForRemoval mTempNext := by
  unfold afterTurn
  cases (memory self).mTempNext with
  | none => exact .inl rfl
  | some mTempNext => exact .inr ⟨mTempNext, rfl, rfl⟩

theorem freeTurn_next {header : HeaderNode α} (hheader : (memory b).mBlockHeader = some header) :
    freeTurn self false (memory, some b) = (true, (memory.afterTurn self b, memory.getParentPtr b)) := by
  have htemp := prepareForRemoval_mTempNext memory b self
  have hparent : memory.getParentPtr b = header.mParentBlock := by rw [getParentPtr, hheader, Option.bind_some]
  rw [freeTurn, hheader, afterTurn, hparent]
  simp [htemp]

theorem afterTurn_mTempNext (memory : PathMemory α) (self b a : α) :
    (memory.afterTurn self b a).mTempNext = (memory a).mTempNext := by
  rcases memory.afterTurn_cases self b with heq | ⟨mTempNext, -, heq⟩
  · rw [heq, prepareForRemoval_mTempNext]
  · rw [heq, prepareForRemoval_mTempNext, prepareForRemoval_mTempNext]

theorem afterTurn_isSome (memory : PathMemory α) (self b a : α) :
    (memory.afterTurn self b a).mBlockHeader.isSome = (memory a).mBlockHeader.isSome := by
  rcases memory.afterTurn_cases self b with heq | ⟨mTempNext, -, heq⟩
  · rw [heq, prepareForRemoval_isSome]
  · rw [heq, prepareForRemoval_isSome, prepareForRemoval_isSome]

theorem afterTurn_prepared (hprepared : (memory a).Prepared ∨ a = b) : (memory.afterTurn self b a).Prepared := by
  have hhere : (memory.prepareForRemoval b a).Prepared := by
    rcases hprepared with hbefore | rfl
    · exact prepared_prepareForRemoval hbefore b
    · exact prepared_self memory a
  rcases memory.afterTurn_cases self b with heq | ⟨mTempNext, -, heq⟩
  · rw [heq]
    exact hhere
  · rw [heq]
    exact prepared_prepareForRemoval hhere mTempNext

theorem getParentPtr_afterTurn_temp {mTempNext : α} (htemp : (memory self).mTempNext = some mTempNext) (b : α) :
    (memory.afterTurn self b).getParentPtr mTempNext = none := by
  rw [afterTurn, htemp]
  exact getParentPtr_prepared _ _

theorem getParentPtr_afterTurn (hne : a ≠ b) (htemp : (memory self).mTempNext ≠ some a) :
    (memory.afterTurn self b).getParentPtr a = memory.getParentPtr a := by
  rcases memory.afterTurn_cases self b with heq | ⟨mTempNext, hsome, heq⟩
  · rw [heq, getParentPtr_of_ne hne]
  · have hother : a ≠ mTempNext := fun hsame => htemp (hsame ▸ hsome)
    rw [heq, getParentPtr_of_ne hother, getParentPtr_of_ne hne]

/-! ### Walks -/

def headed (memory : PathMemory α) (b : α) : Bool := (memory b).mBlockHeader.isSome

/-- The blocks of a chain are prepared up to the first without a header, if the temporary pointer cuts nothing off. -/
theorem returns_of_chain (self : α) {start : Option α} {l : List α} (hchain : Chain memory.getParentPtr start l)
    (htemp : ∀ mTempNext, (memory self).mTempNext = some mTempNext → mTempNext ∈ l.tail →
      memory.getParentPtr mTempNext = none) :
    ∃ turns last, Loop.Returns (freeTurn self false) (memory, start) turns last ∧
      turns.filterMap Prod.snd = l.takeWhile memory.headed ∧
      ∀ b, (memory b).Prepared ∨ b ∈ l.takeWhile memory.headed → (last.1 b).Prepared := by
  induction l generalizing memory start with
  | nil =>
      obtain rfl := Chain.nil_iff.mp hchain
      exact ⟨[], _, .last rfl, rfl, fun b hb => hb.resolve_right List.not_mem_nil⟩
  | cons a l ih =>
      have hnodup := List.nodup_cons.mp hchain.nodup
      obtain ⟨rfl, hrest⟩ := Chain.cons_iff.mp hchain
      cases hheader : (memory a).mBlockHeader with
      | none =>
          have hnone : memory.headed a = false := by rw [headed, hheader, Option.isSome_none]
          have hturn : freeTurn self false (memory, some a) = (false, (memory, some a)) := by
            rw [freeTurn, hheader]
          refine ⟨[], _, .last hturn, by simp [hnone], fun b hb => hb.resolve_right ?_⟩
          simp [hnone]
      | some header =>
          have hsome : memory.headed a = true := by rw [headed, hheader, Option.isSome_some]
          have hheaded : (memory.afterTurn self a).headed = memory.headed := by
            funext b
            exact afterTurn_isSome memory self a b
          have hrest' : Chain (memory.afterTurn self a).getParentPtr (memory.getParentPtr a) l := by
            refine hrest.congr fun b hb => ?_
            by_cases hcut : (memory self).mTempNext = some b
            · rw [getParentPtr_afterTurn_temp hcut, htemp b hcut hb]
            · exact getParentPtr_afterTurn (fun heq => hnodup.1 (heq ▸ hb)) hcut
          obtain ⟨turns, last, hreturns, hvisited, hprepared⟩ := ih hrest' fun mTempNext hcut _ => by
            rw [afterTurn_mTempNext] at hcut
            exact getParentPtr_afterTurn_temp hcut a
          rw [hheaded] at hvisited hprepared
          refine ⟨_, last, .next (freeTurn_next hheader) hreturns, ?_, fun b hb => hprepared b ?_⟩
          · simp [hsome, hvisited]
          · rw [List.takeWhile_cons, if_pos hsome, List.mem_cons] at hb
            rcases hb with hbefore | rfl | hlater
            · exact .inl (afterTurn_prepared (.inl hbefore))
            · exact .inl (afterTurn_prepared (.inr rfl))
            · exact .inr hlater

/-- Where the temporary pointer cuts the path behind one of its blocks, the rest is not visited. -/
theorem returns_of_cut {l front behind : List α} {start : Option α} {mTempNext : α}
    (hchain : Chain memory.getParentPtr start (a :: (front ++ mTempNext :: behind)))
    (htemp : (memory self).mTempNext = some mTempNext) (hheaded : memory.headed a = true)
    (hl : l = a :: (front ++ [mTempNext])) :
    ∃ turns last, Loop.Returns (freeTurn self false) (memory, start) turns last ∧
      (turns.filterMap Prod.snd).length ≤ l.length := by
  subst hl
  have hnodup := hchain.nodup
  rw [List.nodup_cons, List.nodup_append] at hnodup
  obtain ⟨rfl, hrest⟩ := Chain.cons_iff.mp hchain
  obtain ⟨header, hheader⟩ := Option.isSome_iff_exists.mp hheaded
  have hrest' : Chain (memory.afterTurn self a).getParentPtr (memory.getParentPtr a) (front ++ [mTempNext]) := by
    refine Chain.cut (getParentPtr_afterTurn_temp htemp a) (fun b hb => ?_) hrest
    refine getParentPtr_afterTurn (fun heq => hnodup.1 ?_) fun hcut => ?_
    · rw [← heq]
      exact List.mem_append_left _ hb
    · obtain rfl := Option.some.inj (htemp.symm.trans hcut)
      exact hnodup.2.2.2 _ hb _ List.mem_cons_self rfl
  obtain ⟨turns, last, hreturns, hvisited, -⟩ := returns_of_chain self hrest' fun other hcut _ => by
    rw [afterTurn_mTempNext] at hcut
    exact getParentPtr_afterTurn_temp hcut a
  refine ⟨_, last, .next (freeTurn_next hheader) hreturns, ?_⟩
  have hlength := (List.takeWhile_prefix (memory.afterTurn self a).headed (l := front ++ [mTempNext])).length_le
  simp only [List.filterMap_cons, hvisited, List.length_cons]
  omega

/-! ### Calls -/

theorem exists_freePath_iff {header : HeaderNode α} (hheader : (memory self).mBlockHeader = some header)
    (tempPathOnly : Bool) {visited : List α} {after : PathMemory α} :
    (∃ fuel, memory.freePath fuel self tempPathOnly = some (visited, after)) ↔
      ∃ turns last, Loop.Returns (freeTurn self tempPathOnly) (memory, memory.getParentPtr self) turns last ∧
        turns.filterMap Prod.snd = visited ∧ last.1 = after := by
  have hparent : memory.getParentPtr self = header.mParentBlock := by rw [getParentPtr, hheader, Option.bind_some]
  simp only [← Loop.exists_run_iff, hparent, freePath, hheader, Option.map_eq_some_iff, Prod.exists, Prod.mk.injEq]
  constructor
  · rintro ⟨fuel, turns, memory', current, hrun, hvisited, hafter⟩
    exact ⟨turns, memory', current, ⟨fuel, hrun⟩, hvisited, hafter⟩
  · rintro ⟨turns, memory', current, ⟨fuel, hrun⟩, hvisited, hafter⟩
    exact ⟨fuel, turns, memory', current, hrun, hvisited, hafter⟩

/-- Where only the temporary path is freed, a turn at a block with a header is followed by one at the same block. -/
theorem freeTurn_stays (self b : α) (s : PathMemory α × Option α)
    (hat : s.2 = some b ∧ (s.1 b).mBlockHeader.isSome = true) :
    (freeTurn self true s).1 = true ∧ (freeTurn self true s).2.2 = some b ∧
      ((freeTurn self true s).2.1 b).mBlockHeader.isSome = true := by
  obtain ⟨memory, current⟩ := s
  obtain ⟨rfl, hsome⟩ := hat
  dsimp only at hsome
  obtain ⟨header, hheader⟩ := Option.isSome_iff_exists.mp hsome
  simp only [freeTurn, hheader, Bool.not_true, Bool.false_eq_true, if_false, true_and]
  cases (memory self).mTempNext with
  | none => exact hsome
  | some mTempNext =>
      dsimp only
      rw [prepareForRemoval_isSome]
      exact hsome

variable {ancestors : List α}

theorem frees_temp_iff {header : HeaderNode α} (hheader : (memory self).mBlockHeader = some header)
    (hchain : Chain memory.getParentPtr (memory.getParentPtr self) ancestors) :
    memory.Frees self true ancestors ↔ ancestors = [] := by
  constructor
  · rintro ⟨fuel, after, hfree, -⟩
    obtain ⟨turns, last, hreturns, hvisited, -⟩ := (exists_freePath_iff hheader true).mp ⟨fuel, hfree⟩
    cases ancestors with
    | nil => rfl
    | cons b l =>
        rw [(Chain.cons_iff.mp hchain).1] at hreturns
        cases hparent : (memory b).mBlockHeader with
        | none =>
            have hturn : freeTurn self true (memory, some b) = (false, (memory, some b)) := by
              rw [freeTurn, hparent]
            rw [((Loop.returns_iff_of_end hturn).mp hreturns).1] at hvisited
            cases hvisited
        | some header =>
            exact absurd hreturns (Loop.not_returns (freeTurn_stays self b) ⟨rfl, by rw [hparent]; rfl⟩)
  · rintro rfl
    have hreturns : Loop.Returns (freeTurn self true) (memory, memory.getParentPtr self) [] (memory, none) := by
      rw [Chain.nil_iff.mp hchain]
      exact .last rfl
    obtain ⟨fuel, hfree⟩ := (exists_freePath_iff hheader true).mpr ⟨[], _, hreturns, rfl, rfl⟩
    exact ⟨fuel, memory, hfree, nofun, fun _ _ => rfl⟩

theorem frees_path_iff {header : HeaderNode α} (hheader : (memory self).mBlockHeader = some header)
    (hchain : Chain memory.getParentPtr (memory.getParentPtr self) ancestors) :
    memory.Frees self false ancestors ↔ memory.Freeable self false ancestors := by
  constructor
  · rintro ⟨fuel, after, hfree, -⟩
    obtain ⟨turns, last, hreturns, hvisited, -⟩ := (exists_freePath_iff hheader false).mp ⟨fuel, hfree⟩
    have hcuts : ∀ mTempNext, (memory self).mTempNext = some mTempNext → mTempNext ∈ ancestors.tail →
        memory.getParentPtr mTempNext = none := by
      intro mTempNext htemp hmem
      cases ancestors with
      | nil => cases hmem
      | cons b l =>
          obtain ⟨front, behind, rfl⟩ := List.append_of_mem hmem
          cases hparent : (memory b).mBlockHeader with
          | none =>
              -- the first ancestor ends the walk, and the others are no ancestors
              have hlast := (Chain.cons_iff.mp hchain).2
              rw [getParentPtr, hparent, Option.bind_none] at hlast
              obtain ⟨⟩ | ⟨⟩ := front <;> cases hlast
          | some _ =>
              have hheaded : memory.headed b = true := by rw [headed, hparent, Option.isSome_some]
              obtain ⟨turns', last', hreturns', hlength⟩ := returns_of_cut hchain htemp hheaded rfl
              rw [← (hreturns.unique hreturns').1, hvisited] at hlength
              rw [@Chain.next_eq_none_iff _ _ _ _ (b :: front) _ hchain]
              simp only [List.length_cons, List.length_append, List.length_nil] at hlength
              exact List.length_eq_zero_iff.mp (by omega)
    refine ⟨?_, hcuts⟩
    obtain ⟨turns', last', hreturns', hvisited', -⟩ := returns_of_chain self hchain hcuts
    rw [← (hreturns.unique hreturns').1, hvisited, eq_comm, List.takeWhile_eq_self_iff] at hvisited'
    exact hvisited'
  · rintro ⟨hheaded, hcuts⟩
    have hwhole : ancestors.takeWhile memory.headed = ancestors := List.takeWhile_eq_self_iff.mpr hheaded
    obtain ⟨turns, last, hreturns, hvisited, hprepared⟩ := returns_of_chain self hchain hcuts
    rw [hwhole] at hvisited hprepared
    obtain ⟨fuel, hfree⟩ := (exists_freePath_iff hheader false).mpr ⟨turns, last, hreturns, hvisited, rfl⟩
    exact ⟨fuel, last.1, hfree, fun _ b hb => hprepared b (.inr hb), nofun⟩

end PathMemory

open PathMemory in
theorem freePath_frees_iff {memory : PathMemory α} {self : α} {ancestors : List α}
    (hchain : Chain memory.getParentPtr (memory.getParentPtr self) ancestors) (tempPathOnly : Bool) :
    memory.Frees self tempPathOnly ancestors ↔ memory.Freeable self tempPathOnly ancestors := by
  cases hheader : (memory self).mBlockHeader with
  | none =>
      have hparent : memory.getParentPtr self = none := by rw [getParentPtr, hheader, Option.bind_none]
      rw [hparent] at hchain
      obtain rfl : ancestors = [] := by
        cases hchain
        rfl
      refine iff_of_true ⟨0, memory, by rw [freePath, hheader], nofun, fun _ _ => rfl⟩ ?_
      cases tempPathOnly with
      | true => exact rfl
      | false => exact ⟨nofun, nofun⟩
  | some header =>
      cases tempPathOnly with
      | true => exact frees_temp_iff hheader hchain
      | false => exact frees_path_iff hheader hchain

/-! ### A path of three -/

/-- Block `2` and its two ancestors. -/
def threeBlocks (block : ℕ) : BlockNode (Option (HeaderNode ℕ)) ℕ where
  mBlockHeader := some
    { mIsKeyBlock := true
      mHeight := block
      getDifficulty := 1
      mParentBlock :=
        match block with
        | 2 => some 1
        | 1 => some 0
        | _ => none }

theorem chain_threeBlocks :
    Chain (PathMemory.getParentPtr threeBlocks) (PathMemory.getParentPtr threeBlocks 2) [1, 0] :=
  .cons (.cons .nil)

theorem threeBlocks_freed : PathMemory.Frees threeBlocks 2 false [1, 0] :=
  (freePath_frees_iff chain_threeBlocks false).mpr ⟨by decide, by decide⟩

/-- With a parent in memory the temporary path is freed for ever. -/
theorem temporary_path_endless :
    Chain (PathMemory.getParentPtr threeBlocks) (PathMemory.getParentPtr threeBlocks 2) [1, 0] ∧
      ¬ PathMemory.Frees threeBlocks 2 true [1, 0] := by
  refine ⟨chain_threeBlocks, fun hfrees => ?_⟩
  have hiff : PathMemory.Frees threeBlocks 2 true [1, 0] ↔ [1, 0] = [] :=
    PathMemory.frees_temp_iff rfl chain_threeBlocks
  cases hiff.mp hfrees

end Gridnet
