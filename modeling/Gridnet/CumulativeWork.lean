import Mathlib.Algebra.GroupWithZero.Nat
import Gridnet.PathFreeing

/-! The cumulative work of a block. `CBlock::getTotaWorkDoneInt` walks from the block to an ancestor whose total is
known, or to the genesis block, and leaves temporary pointers to come back by; on the way back it sums up the totals
and clears these pointers. They stay where an ancestor is missing, and those that were there before are lost. -/

namespace Gridnet

/-- The results that are assigned here. -/
inductive eBlockVerificationResult where
  | valid
  | unknownBlockOnPath
  deriving DecidableEq, Repr

/-- The blocks that the walk meets, each with its header. -/
abbrev WorkMemory (α : Type) : Type := α → BlockNode (HeaderNode α) α

variable {α : Type} [DecidableEq α]

namespace WorkMemory

omit [DecidableEq α] in
def getTotalDiffField (memory : WorkMemory α) (block : α) : UInt64 := (memory block).mBlockHeader.mTotalWorkDone

omit [DecidableEq α] in
def getDifficulty (memory : WorkMemory α) (block : α) : ℕ := (memory block).mBlockHeader.getDifficulty

omit [DecidableEq α] in
/-- `lookup` is the block that the header's pointer, the caches or the storage lead to. -/
def getParent (memory : WorkMemory α) (lookup : α → Option α) (block : α) : Option α :=
  if (memory block).mBlockHeader.mHeight = 0 then none else lookup block

omit [DecidableEq α] in
def isGenesis (memory : WorkMemory α) (lookup : α → Option α) (block : α) : Bool :=
  (memory block).mBlockHeader.mIsKeyBlock && (memory block).mBlockHeader.mHeight == 0 &&
    (memory.getParent lookup block).isNone

def setTempNext (memory : WorkMemory α) (block : α) (nxt : Option α) : WorkMemory α :=
  Function.update memory block { memory block with mTempNext := nxt }

def setTotalDiffField (memory : WorkMemory α) (block : α) (diff : ℕ) : WorkMemory α :=
  Function.update memory block
    { memory block with
      mBlockHeader := { (memory block).mBlockHeader with mTotalWorkDone := UInt64.ofNat diff } }

def prepareForRemoval (memory : WorkMemory α) (block : α) : WorkMemory α :=
  Function.update memory block ((memory block).prepareForRemoval HeaderNode.detach)

/-- The temporary pointer from the block that is walked on to, back to the one before it. -/
def link (memory : WorkMemory α) (previous : Option α) (current : α) : WorkMemory α :=
  match previous with
  | none => memory
  | some previous => memory.setTempNext current (some previous)

/-- One turn of the first loop, from `current` and `previous`. -/
def backTurn (lookup : α → Option α) :
    WorkMemory α × Option α × Option α → Bool × (WorkMemory α × Option α × Option α)
  | (memory, none, previous) => (false, (memory, none, previous))
  | (memory, some current, previous) =>
      let memory := memory.link previous current
      if memory.getTotalDiffField current ≠ 0 then (false, (memory, some current, previous))
      else (true, (memory, memory.getParent lookup current, some current))

/-- What the second loop does to the block that it leaves. -/
def leave (memory : WorkMemory α) (previous : α) : WorkMemory α :=
  let memory := memory.setTempNext previous none
  if (memory previous).mPartOfMainCache then memory else memory.prepareForRemoval previous

/-- The total of the next block, if there is one. The source adds a `double`, the difficulty, to the `uint64_t` total.
The difficulties here are whole numbers, for which that sum is exact as long as the totals are below `2 ^ 53`. -/
def sumUp (memory : WorkMemory α) (current : α) : Option α → WorkMemory α
  | none => memory
  | some next =>
      memory.setTotalDiffField next ((memory.getTotalDiffField current).toNat + memory.getDifficulty next)

/-- One turn of the second loop. -/
def forwardTurn : WorkMemory α × Option α → Bool × (WorkMemory α × Option α)
  | (memory, none) => (false, (memory, none))
  | (memory, some current) =>
      let next := (memory current).mTempNext
      (true, ((memory.sumUp current next).leave current, next))

/-- The way back from `current`. -/
def sumForward (fuel : ℕ) (lookup : α → Option α) (memory : WorkMemory α) (self current : α) :
    Option (eBlockVerificationResult × UInt64 × WorkMemory α) :=
  let memory :=
    if memory.getTotalDiffField current = 0 ∧ memory.isGenesis lookup current then
      memory.setTotalDiffField current (memory.getDifficulty current)
    else memory
  (Loop.run forwardTurn fuel (memory, some current)).map fun (_, last) =>
    (.valid, last.1.getTotalDiffField self, last.1)

/-- `getTotaWorkDoneInt` with a total of zero to begin with: the result, the total and the memory; `none` where the
fuel did not suffice. -/
def getTotaWorkDoneInt (fuel : ℕ) (lookup : α → Option α) (memory : WorkMemory α) (self : α) :
    Option (eBlockVerificationResult × UInt64 × WorkMemory α) :=
  if 0 < memory.getTotalDiffField self then some (.valid, memory.getTotalDiffField self, memory)
  else
    match Loop.run (backTurn lookup) fuel (memory, some self, none) with
    | none => none
    | some (_, (memory, none, none)) =>
        let memory := memory.setTotalDiffField self (memory.getDifficulty self)
        some (if memory.isGenesis lookup self then .valid else .unknownBlockOnPath,
          memory.getTotalDiffField self, memory)
    | some (_, (memory, none, some previous)) =>
        if !memory.isGenesis lookup previous then some (.unknownBlockOnPath, 0, memory)
        else memory.sumForward fuel lookup self previous
    | some (_, (memory, some current, _)) => memory.sumForward fuel lookup self current

/-! ### Work -/

variable (lookup : α → Option α) (memory : WorkMemory α)

omit [DecidableEq α] in
/-- The chain of a block reaches the genesis block. -/
def Complete (l : List α) : Prop := ∀ g ∈ l.getLast?, memory.isGenesis lookup g = true

omit [DecidableEq α] in
def work (l : List α) : ℕ := (l.map memory.getDifficulty).sum

omit [DecidableEq α] in
/-- The work of a block with all its ancestors. -/
def WorkOf (b : α) (w : ℕ) : Prop :=
  ∃ l, Chain (memory.getParent lookup) (some b) l ∧ memory.Complete lookup l ∧ w = memory.work l

omit [DecidableEq α] in
/-- Every total that is known is right. -/
def Known : Prop := ∀ b, memory.getTotalDiffField b ≠ 0 → memory.WorkOf lookup b (memory.getTotalDiffField b).toNat

omit [DecidableEq α] in
/-- The links of a block. -/
def links (b : α) : Option α × Option α × Option α :=
  ((memory b).mNext, (memory b).mBlockHeader.mParentBlock, (memory b).mTempNext)

/-- The sum over the chain `l` of a block is returned and nothing else is changed but totals, or an ancestor is missing
and nothing is. -/
structure Answered (l : List α) (result : eBlockVerificationResult) (totalDiff : UInt64)
    (after : WorkMemory α) : Prop where
  complete : memory.Complete lookup l → result = .valid ∧ totalDiff.toNat = memory.work l ∧
    ∀ b, after.getTotalDiffField b ≠ 0 → memory.WorkOf lookup b (after.getTotalDiffField b).toNat
  missing : ¬ memory.Complete lookup l → result = .unknownBlockOnPath ∧
    ∀ b, after.getTotalDiffField b = memory.getTotalDiffField b
  links : ∀ b, (memory b).mPartOfMainCache = true → after.links b = memory.links b

def SumsWork (self : α) (l : List α) : Prop :=
  ∃ fuel result totalDiff after, getTotaWorkDoneInt fuel lookup memory self = some (result, totalDiff, after) ∧
    Answered lookup memory l result totalDiff after

omit [DecidableEq α] in
/-- The blocks up to the first whose total is known. -/
def walked : List α → List α
  | [] => []
  | b :: l => if memory.getTotalDiffField b ≠ 0 then [b] else b :: walked l

/-- The temporary pointers lead nowhere and the work has no more than 64 bits where the chain is complete; where an
ancestor is missing they lead to where the walk sets them. -/
structure Undisturbed (block : α) (l : List α) : Prop where
  tip : memory.Complete lookup l → (memory block).mTempNext = none
  small : memory.Complete lookup l → memory.work l < 2 ^ 64
  free : memory.Complete lookup l → ∀ b ∈ memory.walked l, (memory b).mPartOfMainCache = true →
    (memory b).mTempNext = none
  missing : ¬ memory.Complete lookup l → l.IsChain fun child b => (memory b).mPartOfMainCache = true →
    (memory b).mTempNext = some child

/-- The walk goes on beyond the block itself, which is outside of the main cache. -/
structure Beyond (block : α) (l : List α) : Prop where
  complete : memory.Complete lookup l
  mPartOfMainCache : (memory block).mPartOfMainCache = false
  mTempNext : (memory block).mTempNext ≠ none

/-! ### What is fixed -/

variable {lookup : α → Option α} {memory after : WorkMemory α} {a b self : α} {l v : List α} {w : ℕ}

omit [DecidableEq α] in
/-- What no call changes of a header. -/
def fixed (memory : WorkMemory α) (b : α) : Bool × ℕ × ℕ :=
  ((memory b).mBlockHeader.mIsKeyBlock, (memory b).mBlockHeader.mHeight, (memory b).mBlockHeader.getDifficulty)

omit [DecidableEq α] in
theorem getParent_congr (hfixed : after.fixed = memory.fixed) : after.getParent lookup = memory.getParent lookup := by
  funext b
  have hheight : (after b).mBlockHeader.mHeight = (memory b).mBlockHeader.mHeight :=
    congrArg (·.2.1) (congrFun hfixed b)
  rw [getParent, getParent, hheight]

omit [DecidableEq α] in
theorem isGenesis_congr (hfixed : after.fixed = memory.fixed) : after.isGenesis lookup = memory.isGenesis lookup := by
  funext b
  have hkey : (after b).mBlockHeader.mIsKeyBlock = (memory b).mBlockHeader.mIsKeyBlock :=
    congrArg (·.1) (congrFun hfixed b)
  have hheight : (after b).mBlockHeader.mHeight = (memory b).mBlockHeader.mHeight :=
    congrArg (·.2.1) (congrFun hfixed b)
  rw [isGenesis, isGenesis, getParent_congr hfixed, hkey, hheight]

omit [DecidableEq α] in
theorem getDifficulty_congr (hfixed : after.fixed = memory.fixed) : after.getDifficulty = memory.getDifficulty := by
  funext b
  exact congrArg (·.2.2) (congrFun hfixed b)

omit [DecidableEq α] in
theorem workOf_congr (hfixed : after.fixed = memory.fixed) :
    after.WorkOf lookup b w ↔ memory.WorkOf lookup b w := by
  simp only [WorkOf, Complete, work, getParent_congr hfixed, isGenesis_congr hfixed, getDifficulty_congr hfixed]

/-! ### Work along chains -/

omit [DecidableEq α] in
theorem WorkOf.unique {w' : ℕ} (hwork : memory.WorkOf lookup b w) (hwork' : memory.WorkOf lookup b w') : w = w' := by
  obtain ⟨l, hchain, -, rfl⟩ := hwork
  obtain ⟨l', hchain', -, rfl⟩ := hwork'
  rw [hchain.unique hchain']

omit [DecidableEq α] in
theorem isGenesis_getParent (hgenesis : memory.isGenesis lookup b = true) : memory.getParent lookup b = none := by
  simp only [isGenesis, Bool.and_eq_true, Option.isNone_iff_eq_none] at hgenesis
  exact hgenesis.2

omit [DecidableEq α] in
theorem workOf_genesis (hgenesis : memory.isGenesis lookup b = true) :
    memory.WorkOf lookup b (memory.getDifficulty b) := by
  refine ⟨[b], .cons (isGenesis_getParent hgenesis ▸ .nil), ?_, by simp [work]⟩
  intro g hg
  cases hg
  exact hgenesis

omit [DecidableEq α] in
theorem workOf_child (hparent : memory.getParent lookup b = some a) (hwork : memory.WorkOf lookup a w) :
    memory.WorkOf lookup b (w + memory.getDifficulty b) := by
  obtain ⟨l, hchain, hcomplete, rfl⟩ := hwork
  refine ⟨b :: l, .cons (hparent ▸ hchain), ?_, by simp [work, Nat.add_comm]⟩
  obtain ⟨l, rfl⟩ : ∃ rest, l = a :: rest := by
    cases hchain
    exact ⟨_, rfl⟩
  exact hcomplete

omit [DecidableEq α] in
/-- Every block of a complete chain has its work, which is no more than that of the chain. -/
theorem workOf_mem (hchain : Chain (memory.getParent lookup) (some self) l) (hcomplete : memory.Complete lookup l)
    (hmem : b ∈ l) : ∃ w, memory.WorkOf lookup b w ∧ w ≤ memory.work l := by
  obtain ⟨front, behind, rfl⟩ := List.append_of_mem hmem
  refine ⟨memory.work (b :: behind), ⟨b :: behind, hchain.suffix, ?_, rfl⟩, ?_⟩
  · intro g hg
    refine hcomplete g ?_
    rw [List.getLast?_append, hg]
    rfl
  · rw [work, work, List.map_append, List.sum_append]
    exact Nat.le_add_left _ _

omit [DecidableEq α] in
/-- Where a total on the way is known, the chain is complete. -/
theorem complete_of_known (hknown : memory.Known lookup) (hchain : Chain (memory.getParent lookup) (some self) l)
    (hmem : b ∈ l) (htotal : memory.getTotalDiffField b ≠ 0) : memory.Complete lookup l := by
  obtain ⟨front, behind, rfl⟩ := List.append_of_mem hmem
  obtain ⟨l', hchain', hcomplete, -⟩ := hknown b htotal
  rw [hchain'.unique hchain.suffix] at hcomplete
  intro g hg
  refine hcomplete g ?_
  rw [List.getLast?_append] at hg
  cases hlast : (b :: behind).getLast? with
  | none => simp at hlast
  | some last =>
      rw [hlast] at hg
      exact hg

/-! ### The way there -/

/-- The memory once the walk has met these blocks. -/
def threaded (memory : WorkMemory α) : Option α → List α → WorkMemory α
  | _, [] => memory
  | previous, b :: v => (memory.link previous b).threaded (some b) v

theorem link_of_ne (previous : Option α) (hne : a ≠ b) : memory.link previous b a = memory a := by
  cases previous with
  | none => rfl
  | some p => exact Function.update_of_ne hne _ _

theorem link_mTempNext (memory : WorkMemory α) (previous : Option α) (b : α) :
    (memory.link previous b b).mTempNext = previous.or (memory b).mTempNext := by
  cases previous with
  | none => rfl
  | some p =>
      change (Function.update memory b _ b).mTempNext = _
      rw [Function.update_self]
      rfl

theorem link_withoutTemp (memory : WorkMemory α) (previous : Option α) (b a : α) :
    (memory.link previous b a).withoutTemp = (memory a).withoutTemp := by
  by_cases hab : a = b
  · subst hab
    cases previous with
    | none => rfl
    | some p =>
        change (Function.update memory a _ a).withoutTemp = _
        rw [Function.update_self]
        rfl
  · rw [link_of_ne previous hab]

theorem threaded_of_notMem {previous : Option α} (hnot : b ∉ v) : memory.threaded previous v b = memory b := by
  induction v generalizing memory previous with
  | nil => rfl
  | cons a v ih =>
      rw [List.mem_cons, not_or] at hnot
      rw [threaded, ih hnot.2, link_of_ne previous hnot.1]

theorem threaded_withoutTemp (memory : WorkMemory α) (previous : Option α) (v : List α) (a : α) :
    (memory.threaded previous v a).withoutTemp = (memory a).withoutTemp := by
  induction v generalizing memory previous with
  | nil => rfl
  | cons b v ih => rw [threaded, ih, link_withoutTemp]

theorem threaded_head (memory : WorkMemory α) (hnodup : (b :: v).Nodup) (previous : Option α) :
    (memory.threaded previous (b :: v) b).mTempNext = previous.or (memory b).mTempNext := by
  rw [threaded, threaded_of_notMem (List.nodup_cons.mp hnodup).1, link_mTempNext]

/-- The temporary pointers lead back along the way. -/
theorem threaded_isChain (memory : WorkMemory α) (hnodup : v.Nodup) (previous : Option α) :
    v.IsChain fun child b => (memory.threaded previous v b).mTempNext = some child := by
  induction v generalizing memory previous with
  | nil => exact .nil
  | cons b v ih =>
      cases v with
      | nil => exact .singleton b
      | cons c v =>
          have hrest := (List.nodup_cons.mp hnodup).2
          refine .cons_cons ?_ (ih _ hrest _)
          rw [threaded, threaded_head _ hrest]
          rfl

/-- The walk leaves the pointers of the main cache as they are where they are already what it sets. -/
theorem threaded_same_iff (hnodup : v.Nodup) (previous : Option α) :
    (∀ b ∈ v, (memory b).mPartOfMainCache = true →
        (memory.threaded previous v b).mTempNext = (memory b).mTempNext) ↔
      (previous.toList ++ v).IsChain fun child b => (memory b).mPartOfMainCache = true →
        (memory b).mTempNext = some child := by
  induction v generalizing memory previous with
  | nil => cases previous <;> simp
  | cons b v ih =>
      obtain ⟨hnot, hnodup'⟩ := List.nodup_cons.mp hnodup
      have hothers : ∀ c ∈ v, memory.link previous b c = memory c := fun c hc =>
        link_of_ne previous fun heq => hnot (heq ▸ hc)
      have hrest : (∀ c ∈ v, (memory c).mPartOfMainCache = true →
          (memory.threaded previous (b :: v) c).mTempNext = (memory c).mTempNext) ↔
          (b :: v).IsChain fun child c => (memory c).mPartOfMainCache = true →
            (memory c).mTempNext = some child := by
        have hstep := @ih (memory.link previous b) hnodup' (some b)
        rw [Option.toList_some, List.singleton_append] at hstep
        constructor
        · intro hsame
          refine (hstep.mp fun c hc hmain => ?_).imp_of_mem_tail_imp fun child c _ hc hlink => ?_
          · rw [hothers c hc] at hmain ⊢
            exact hsame c hc hmain
          · rwa [hothers c hc] at hlink
        · intro hchain c hc hmain
          have hlinked := hstep.mpr (hchain.imp_of_mem_tail_imp fun child c _ hc hlink => by rwa [hothers c hc]) c hc
          rw [hothers c hc] at hlinked
          exact hlinked hmain
      rw [List.forall_mem_cons, hrest, threaded_head memory hnodup]
      cases previous with
      | none => simp
      | some p =>
          rw [Option.toList_some, List.singleton_append, List.isChain_cons_cons, Option.some_or]
          exact and_congr_left' (imp_congr_right fun _ => eq_comm)

omit [DecidableEq α] in
theorem totals_of_withoutTemp (hsame : (after b).withoutTemp = (memory b).withoutTemp) :
    after.getTotalDiffField b = memory.getTotalDiffField b :=
  congrArg (fun block => block.mBlockHeader.mTotalWorkDone) hsame

omit [DecidableEq α] in
theorem fixed_of_withoutTemp (hsame : ∀ b, (after b).withoutTemp = (memory b).withoutTemp) :
    after.fixed = memory.fixed := by
  funext b
  exact congrArg (fun block => (block.mBlockHeader.mIsKeyBlock, block.mBlockHeader.mHeight,
    block.mBlockHeader.getDifficulty)) (hsame b)

omit [DecidableEq α] in
theorem walked_congr (htotals : ∀ b, after.getTotalDiffField b = memory.getTotalDiffField b) (l : List α) :
    after.walked l = memory.walked l := by
  induction l with
  | nil => rfl
  | cons b l ih => rw [walked, walked, htotals b, ih]

omit [DecidableEq α] in
theorem walked_prefix (memory : WorkMemory α) (l : List α) : memory.walked l <+: l := by
  induction l with
  | nil => exact List.prefix_rfl
  | cons b l ih =>
      rw [walked]
      split_ifs
      · exact ⟨l, rfl⟩
      · exact (List.prefix_cons_inj b).mpr ih

/-- The first loop ends at a block whose total is known, or behind the end of the chain. -/
theorem back_returns (hchain : Chain (memory.getParent lookup) (some b) l) (previous : Option α) :
    ∃ turns current previous', Loop.Returns (backTurn lookup) (memory, some b, previous) turns
        (memory.threaded previous (memory.walked l), current, previous') ∧
      ∃ x, (memory.walked l).getLast? = some x ∧ ((memory.getTotalDiffField x ≠ 0 ∧ current = some x) ∨
        (memory.getTotalDiffField x = 0 ∧ current = none ∧ previous' = some x ∧ memory.walked l = l)) := by
  induction l generalizing memory b previous with
  | nil => cases hchain
  | cons c l ih =>
      obtain ⟨heq, hrest⟩ := Chain.cons_iff.mp hchain
      obtain rfl := Option.some.inj heq
      have hsame := memory.link_withoutTemp previous b
      have htotals : ∀ a, (memory.link previous b).getTotalDiffField a = memory.getTotalDiffField a :=
        fun a => totals_of_withoutTemp (hsame a)
      have hparents : (memory.link previous b).getParent lookup = memory.getParent lookup :=
        getParent_congr (fixed_of_withoutTemp hsame)
      rw [walked]
      by_cases hzero : memory.getTotalDiffField b = 0
      · have hturn : backTurn lookup (memory, some b, previous) =
            (true, (memory.link previous b, memory.getParent lookup b, some b)) := by
          rw [backTurn, htotals, if_neg (not_not.mpr hzero), hparents]
        rw [if_neg (not_not.mpr hzero)]
        cases l with
        | nil =>
            refine ⟨_, none, some b, .next hturn (.last ?_), b, rfl, .inr ⟨hzero, rfl, rfl, rfl⟩⟩
            rw [Chain.nil_iff.mp hrest]
            rfl
        | cons c l =>
            have hnext := (Chain.cons_iff.mp hrest).1
            rw [hnext, ← hparents] at hrest
            obtain ⟨turns, current, previous', hreturns, x, hlast, hends⟩ := ih hrest (some b)
            rw [walked_congr htotals] at hreturns hlast hends
            refine ⟨_, current, previous', .next hturn (hnext ▸ hreturns), x, ?_, ?_⟩
            · rw [List.getLast?_cons, hlast]
              rfl
            · rw [htotals] at hends
              refine hends.imp_right fun ⟨hx, hcurrent, hprevious, hwhole⟩ => ⟨hx, hcurrent, hprevious, ?_⟩
              rw [hwhole]
      · have hturn : backTurn lookup (memory, some b, previous) =
            (false, (memory.link previous b, some b, previous)) := by
          rw [backTurn, htotals, if_pos hzero]
        rw [if_pos hzero]
        exact ⟨_, some b, previous, .last hturn, b, rfl, .inl ⟨hzero, rfl⟩⟩

/-! ### The way back -/

theorem setTotalDiffField_of_ne {diff : ℕ} (hne : a ≠ b) : memory.setTotalDiffField b diff a = memory a :=
  Function.update_of_ne hne _ _

theorem setTotalDiffField_self (memory : WorkMemory α) (b : α) (diff : ℕ) :
    memory.setTotalDiffField b diff b =
      { memory b with mBlockHeader := { (memory b).mBlockHeader with mTotalWorkDone := UInt64.ofNat diff } } :=
  Function.update_self _ _ _

theorem leave_of_ne (hne : a ≠ b) : memory.leave b a = memory a := by
  have htemp : memory.setTempNext b none a = memory a := Function.update_of_ne hne _ _
  unfold leave
  split_ifs
  · exact htemp
  · exact (Function.update_of_ne hne _ _).trans htemp

theorem leave_self (memory : WorkMemory α) (b : α) :
    memory.leave b b = { memory b with mTempNext := none } ∨
      (memory b).mPartOfMainCache = false ∧
        memory.leave b b =
          BlockNode.prepareForRemoval HeaderNode.detach { memory b with mTempNext := none } := by
  have htemp : memory.setTempNext b none b = { memory b with mTempNext := none } := Function.update_self _ _ _
  unfold leave
  rw [htemp]
  split_ifs with hmain
  · exact .inl htemp
  · refine .inr ⟨Bool.not_eq_true _ ▸ hmain, ?_⟩
    rw [prepareForRemoval, Function.update_self, htemp]

/-- Totals and pointers apart, a turn of the second loop changes nothing; the block that it leaves keeps its total, and
its permanent links if it is in the main cache. -/
structure Left (memory after : WorkMemory α) (b : α) : Prop where
  mTempNext : (after b).mTempNext = none
  total : after.getTotalDiffField b = memory.getTotalDiffField b
  main : (memory b).mPartOfMainCache = true → (after b).mPartOfMainCache = true ∧
    (after b).mNext = (memory b).mNext ∧
    (after b).mBlockHeader.mParentBlock = (memory b).mBlockHeader.mParentBlock

theorem left_leave (memory : WorkMemory α) (b : α) : Left memory (memory.leave b) b := by
  rcases memory.leave_self b with heq | ⟨hmain, heq⟩
  · constructor
    · rw [heq]
    · rw [getTotalDiffField, heq]
      rfl
    · intro hmain
      rw [heq]
      exact ⟨hmain, rfl, rfl⟩
  · constructor
    · rw [heq]
      rfl
    · rw [getTotalDiffField, heq]
      rfl
    · intro htrue
      rw [hmain] at htrue
      cases htrue

theorem fixed_leave (memory : WorkMemory α) (b : α) : (memory.leave b).fixed = memory.fixed := by
  funext a
  by_cases hab : a = b
  · subst hab
    rcases memory.leave_self a with heq | ⟨-, heq⟩
    · rw [fixed, heq]
      rfl
    · rw [fixed, heq]
      rfl
  · rw [fixed, leave_of_ne hab]
    rfl

theorem fixed_setTotalDiffField (memory : WorkMemory α) (b : α) (diff : ℕ) :
    (memory.setTotalDiffField b diff).fixed = memory.fixed := by
  funext a
  by_cases hab : a = b
  · subst hab
    rw [fixed, setTotalDiffField_self]
    rfl
  · rw [fixed, setTotalDiffField_of_ne hab]
    rfl

/-- What the second loop leaves where it sums up along `v`. -/
structure Summed (lookup : α → Option α) (memory after : WorkMemory α) (v : List α) : Prop where
  others : ∀ b ∉ v, after b = memory b
  cleared : ∀ b ∈ v, (after b).mTempNext = none
  main : ∀ b, (memory b).mPartOfMainCache = true → (after b).mNext = (memory b).mNext ∧
    (after b).mBlockHeader.mParentBlock = (memory b).mBlockHeader.mParentBlock
  totals : ∀ b ∈ v, ∃ w, memory.WorkOf lookup b w ∧ (after.getTotalDiffField b).toNat = w % 2 ^ 64

theorem forwardTurn_some {x : α} {next : Option α} (hnext : (memory x).mTempNext = next) :
    forwardTurn (memory, some x) = (true, ((memory.sumUp x next).leave x, next)) := by
  rw [forwardTurn, hnext]

/-- One turn from `x` to the next block of its path. -/
theorem sumUp_leave_next (memory : WorkMemory α) {x y : α} (hne : y ≠ x) :
    ((memory.sumUp x (some y)).leave x).fixed = memory.fixed ∧ Left memory ((memory.sumUp x (some y)).leave x) x ∧
      (memory.sumUp x (some y)).leave x y =
        { memory y with
          mBlockHeader := { (memory y).mBlockHeader with
            mTotalWorkDone := UInt64.ofNat ((memory.getTotalDiffField x).toNat + memory.getDifficulty y) } } ∧
      ∀ b, b ≠ x → b ≠ y → (memory.sumUp x (some y)).leave x b = memory b := by
  have hx : ∀ diff, memory.setTotalDiffField y diff x = memory x := fun diff => setTotalDiffField_of_ne hne.symm
  refine ⟨(fixed_leave _ x).trans (fixed_setTotalDiffField memory y _), ?_, ?_, fun b hbx hby => ?_⟩
  · obtain ⟨htemp, htotal, hmain⟩ := left_leave (memory.sumUp x (some y)) x
    rw [getTotalDiffField, getTotalDiffField, sumUp, hx] at htotal
    rw [sumUp, hx] at hmain
    exact ⟨htemp, htotal, hmain⟩
  · rw [leave_of_ne hne, sumUp, setTotalDiffField_self]
  · rw [leave_of_ne hbx, sumUp, setTotalDiffField_of_ne hby]

/-- Along a path that ends, every block gets the work of its ancestors and its own. -/
theorem forward_returns {x : α} {r : List α}
    (hlinks : (x :: r).IsChain fun a b => (memory a).mTempNext = some b ∧ memory.getParent lookup b = some a)
    (hnodup : (x :: r).Nodup) (hend : ∀ z ∈ (x :: r).getLast?, (memory z).mTempNext = none)
    (hwork : memory.WorkOf lookup x w) (htotal : (memory.getTotalDiffField x).toNat = w % 2 ^ 64) :
    ∃ turns after, Loop.Returns forwardTurn (memory, some x) turns (after, none) ∧
      Summed lookup memory after (x :: r) := by
  induction r generalizing memory x w with
  | nil =>
      have hturn := forwardTurn_some (hend x rfl)
      have hleft := memory.left_leave x
      refine ⟨_, _, .next hturn (.last rfl), ?_, ?_, ?_, ?_⟩
      · intro b hb
        exact leave_of_ne fun heq => hb (heq ▸ List.mem_singleton_self b)
      · intro b hb
        rw [List.mem_singleton.mp hb]
        exact hleft.mTempNext
      · intro b hmain
        by_cases hb : b = x
        · subst hb
          exact (hleft.main hmain).2
        · rw [sumUp, leave_of_ne hb]
          exact ⟨rfl, rfl⟩
      · intro b hb
        rw [List.mem_singleton.mp hb]
        exact ⟨w, hwork, by rw [sumUp, hleft.total, htotal]⟩
  | cons y r ih =>
      obtain ⟨⟨hnext, hparent⟩, hrest⟩ := List.isChain_cons_cons.mp hlinks
      obtain ⟨hnotx, hnodup'⟩ := List.nodup_cons.mp hnodup
      have hne : y ≠ x := fun heq => hnotx (heq ▸ List.mem_cons_self)
      obtain ⟨hfixed, hleft, hy, hothers⟩ := sumUp_leave_next memory hne
      have hturn := forwardTurn_some hnext
      generalize (memory.sumUp x (some y)).leave x = memory' at hfixed hleft hy hothers hturn
      have htemps : ∀ b ∈ y :: r, (memory' b).mTempNext = (memory b).mTempNext := by
        intro b hb
        by_cases hby : b = y
        · rw [hby, hy]
        · rw [hothers b (fun heq => hnotx (heq ▸ hb)) hby]
      have hlinks' : (y :: r).IsChain fun a b =>
          (memory' a).mTempNext = some b ∧ memory'.getParent lookup b = some a := by
        refine hrest.imp_of_mem_imp fun a b ha _ hab => ?_
        rw [htemps a ha, getParent_congr hfixed]
        exact hab
      have hend' : ∀ z ∈ (y :: r).getLast?, (memory' z).mTempNext = none := by
        intro z hz
        rw [htemps z (List.mem_of_getLast? hz)]
        exact hend z hz
      have htotal' : (memory'.getTotalDiffField y).toNat = (w + memory.getDifficulty y) % 2 ^ 64 := by
        rw [getTotalDiffField, hy, UInt64.toNat_ofNat', htotal, Nat.mod_add_mod]
      obtain ⟨turns, after, hreturns, hsummed⟩ :=
        ih hlinks' hnodup' hend' ((workOf_congr hfixed).mpr (workOf_child hparent hwork)) htotal'
      have hafterx : after x = memory' x := hsummed.others x hnotx
      refine ⟨_, after, .next hturn hreturns, ?_, ?_, ?_, ?_⟩
      · intro b hb
        rw [List.mem_cons, not_or] at hb
        rw [hsummed.others b hb.2]
        exact hothers b hb.1 fun heq => hb.2 (heq ▸ List.mem_cons_self)
      · intro b hb
        rcases List.mem_cons.mp hb with rfl | hb
        · rw [hafterx]
          exact hleft.mTempNext
        · exact hsummed.cleared b hb
      · intro b hmain
        by_cases hbx : b = x
        · subst hbx
          rw [hafterx]
          exact (hleft.main hmain).2
        · have hsame : (memory' b).mPartOfMainCache = (memory b).mPartOfMainCache ∧
              (memory' b).mNext = (memory b).mNext ∧
              (memory' b).mBlockHeader.mParentBlock = (memory b).mBlockHeader.mParentBlock := by
            by_cases hby : b = y
            · rw [hby, hy]
              exact ⟨rfl, rfl, rfl⟩
            · rw [hothers b hbx hby]
              exact ⟨rfl, rfl, rfl⟩
          rw [← hsame.2.1, ← hsame.2.2]
          exact hsummed.main b (hsame.1.trans hmain)
      · intro b hb
        rcases List.mem_cons.mp hb with rfl | hb
        · refine ⟨w, hwork, ?_⟩
          rw [getTotalDiffField, hafterx]
          exact (congrArg UInt64.toNat hleft.total).trans htotal
        · obtain ⟨w', hwork', htotal''⟩ := hsummed.totals b hb
          exact ⟨w', (workOf_congr hfixed).mp hwork', htotal''⟩

theorem forwardTurn_mTempNext (b : α) (s : WorkMemory α × Option α) (hnone : (s.1 b).mTempNext = none) :
    ((forwardTurn s).2.1 b).mTempNext = none := by
  obtain ⟨memory, current⟩ := s
  cases current with
  | none => exact hnone
  | some x =>
      rw [forwardTurn_some rfl]
      by_cases hbx : b = x
      · rw [hbx]
        exact (left_leave _ x).mTempNext
      · dsimp only at hnone ⊢
        rw [leave_of_ne hbx]
        cases (memory x).mTempNext with
        | none => exact hnone
        | some y =>
            by_cases hby : b = y
            · subst hby
              rw [sumUp, setTotalDiffField_self]
              exact hnone
            · rw [sumUp, setTotalDiffField_of_ne hby]
              exact hnone

/-- Whatever comes behind the path, its blocks have lost their temporary pointers in the end. -/
theorem forward_clears {x : α} {r : List α} (hlinks : (x :: r).IsChain fun a b => (memory a).mTempNext = some b)
    (hnodup : (x :: r).Nodup) {turns : List (WorkMemory α × Option α)} {last : WorkMemory α × Option α}
    (hreturns : Loop.Returns forwardTurn (memory, some x) turns last) :
    ∀ b ∈ x :: r, (last.1 b).mTempNext = none := by
  induction r generalizing memory x turns with
  | nil =>
      intro b hb
      rw [List.mem_singleton.mp hb]
      obtain ⟨rest, -, hrest⟩ := (Loop.returns_iff_of_next (forwardTurn_some rfl)).mp hreturns
      exact hrest.invariant (fun s => (s.1 x).mTempNext = none) (forwardTurn_mTempNext x) (left_leave _ x).mTempNext
  | cons y r ih =>
      obtain ⟨hnext, hlinks'⟩ := List.isChain_cons_cons.mp hlinks
      obtain ⟨hnotx, hnodup'⟩ := List.nodup_cons.mp hnodup
      have hne : y ≠ x := fun heq => hnotx (heq ▸ List.mem_cons_self)
      obtain ⟨-, hleft, hy, hothers⟩ := sumUp_leave_next memory hne
      obtain ⟨rest, -, hrest⟩ := (Loop.returns_iff_of_next (forwardTurn_some hnext)).mp hreturns
      have hlinked : (y :: r).IsChain fun a b => ((memory.sumUp x (some y)).leave x a).mTempNext = some b := by
        refine hlinks'.imp_of_mem_imp fun a b ha _ hab => ?_
        by_cases hay : a = y
        · subst hay
          rw [hy]
          exact hab
        · rw [hothers a (fun heq => hnotx (heq ▸ ha)) hay]
          exact hab
      intro b hb
      rcases List.mem_cons.mp hb with rfl | hb
      · exact hrest.invariant (fun s => (s.1 b).mTempNext = none) (forwardTurn_mTempNext b) hleft.mTempNext
      · exact ih hlinked hnodup' hrest b hb

/-! ### Calls -/

omit [DecidableEq α] in
theorem not_pos_of_zero (hzero : memory.getTotalDiffField self = 0) : ¬ 0 < memory.getTotalDiffField self := by
  rw [hzero]
  decide

/-- The answer where an ancestor is missing. -/
theorem exists_answer_of_missing {memory₁ : WorkMemory α} {x : α}
    {turns : List (WorkMemory α × Option α × Option α)} (hzero : memory.getTotalDiffField self = 0)
    (hback : Loop.Returns (backTurn lookup) (memory, some self, none) turns (memory₁, none, some x))
    (hgenesis : memory₁.isGenesis lookup x = false)
    {out : eBlockVerificationResult × UInt64 × WorkMemory α} :
    (∃ fuel, getTotaWorkDoneInt fuel lookup memory self = some out) ↔ out = (.unknownBlockOnPath, 0, memory₁) := by
  have hnot := not_pos_of_zero hzero
  constructor
  · rintro ⟨fuel, hrun⟩
    rw [getTotaWorkDoneInt, if_neg hnot] at hrun
    cases hloop : Loop.run (backTurn lookup) fuel (memory, some self, none) with
    | none =>
        rw [hloop] at hrun
        cases hrun
    | some ended =>
        obtain ⟨turns', last⟩ := ended
        obtain ⟨-, rfl⟩ := hback.unique (Loop.exists_run_iff.mp ⟨fuel, hloop⟩)
        simp only [hloop, hgenesis, Bool.not_false, if_true, Option.some.injEq] at hrun
        exact hrun.symm
  · rintro rfl
    obtain ⟨fuel, hloop⟩ := Loop.exists_run_iff.mpr hback
    refine ⟨fuel, ?_⟩
    simp only [getTotaWorkDoneInt, if_neg hnot, hloop, hgenesis, Bool.not_false, if_true]

/-- The answer where the first loop has found a block to start from. -/
theorem exists_answer_of_start {memory₁ : WorkMemory α} {x : α}
    {turns : List (WorkMemory α × Option α × Option α)} {current previous : Option α}
    (hzero : memory.getTotalDiffField self = 0)
    (hback : Loop.Returns (backTurn lookup) (memory, some self, none) turns (memory₁, current, previous))
    (hstart : current = some x ∨ current = none ∧ previous = some x ∧ memory₁.isGenesis lookup x = true)
    {out : eBlockVerificationResult × UInt64 × WorkMemory α} :
    (∃ fuel, getTotaWorkDoneInt fuel lookup memory self = some out) ↔
      ∃ fuel, memory₁.sumForward fuel lookup self x = some out := by
  have hnot := not_pos_of_zero hzero
  have hcall : ∀ {fuel turns'}, Loop.run (backTurn lookup) fuel (memory, some self, none) =
      some (turns', memory₁, current, previous) →
        getTotaWorkDoneInt fuel lookup memory self = memory₁.sumForward fuel lookup self x := by
    intro fuel turns' hloop
    rw [getTotaWorkDoneInt, if_neg hnot, hloop]
    rcases hstart with rfl | ⟨rfl, rfl, hgenesis⟩
    · rfl
    · simp only [hgenesis, Bool.not_true, Bool.false_eq_true, if_false]
  constructor
  · rintro ⟨fuel, hrun⟩
    cases hloop : Loop.run (backTurn lookup) fuel (memory, some self, none) with
    | none =>
        rw [getTotaWorkDoneInt, if_neg hnot, hloop] at hrun
        cases hrun
    | some ended =>
        obtain ⟨turns', last⟩ := ended
        obtain ⟨-, rfl⟩ := hback.unique (Loop.exists_run_iff.mp ⟨fuel, hloop⟩)
        exact ⟨fuel, (hcall hloop).symm.trans hrun⟩
  · rintro ⟨fuel, hforward⟩
    obtain ⟨fuel', hloop⟩ := Loop.exists_run_iff.mpr hback
    have hmore := Loop.run_mono (Nat.le_max_right fuel fuel') hloop
    refine ⟨max fuel fuel', (hcall hmore).trans ?_⟩
    obtain ⟨ended, hended, hout⟩ := Option.map_eq_some_iff.mp hforward
    exact Option.map_eq_some_iff.mpr ⟨ended, Loop.run_mono (Nat.le_max_left fuel fuel') hended, hout⟩

/-- The block that the sum starts from, with its total. -/
def start (lookup : α → Option α) (memory : WorkMemory α) (current : α) : WorkMemory α :=
  if memory.getTotalDiffField current = 0 ∧ memory.isGenesis lookup current then
    memory.setTotalDiffField current (memory.getDifficulty current)
  else memory

theorem exists_sumForward_iff {x : α} {result : eBlockVerificationResult} {totalDiff : UInt64} :
    (∃ fuel, memory.sumForward fuel lookup self x = some (result, totalDiff, after)) ↔
      ∃ turns current, Loop.Returns forwardTurn (start lookup memory x, some x) turns (after, current) ∧
        result = .valid ∧ totalDiff = after.getTotalDiffField self := by
  constructor
  · rintro ⟨fuel, hforward⟩
    obtain ⟨⟨turns, last, current⟩, hrun, hout⟩ := Option.map_eq_some_iff.mp hforward
    simp only [Prod.mk.injEq] at hout
    obtain ⟨rfl, rfl, rfl⟩ := hout
    exact ⟨turns, current, Loop.exists_run_iff.mp ⟨fuel, hrun⟩, rfl, rfl⟩
  · rintro ⟨turns, current, hreturns, rfl, rfl⟩
    obtain ⟨fuel, hrun⟩ := Loop.exists_run_iff.mpr hreturns
    exact ⟨fuel, Option.map_eq_some_iff.mpr ⟨_, hrun, rfl⟩⟩

/-- The memory as the way back begins: `x` is the last block that was met, and its total is right. -/
structure Started (lookup : α → Option α) (memory memory₂ : WorkMemory α) (block : α) (v r : List α) (x : α) :
    Prop where
  path : v.reverse = x :: r
  links : (x :: r).IsChain fun a b => (memory₂ a).mTempNext = some b ∧ memory₂.getParent lookup b = some a
  tip : (memory₂ block).mTempNext = (memory block).mTempNext
  last : (x :: r).getLast? = some block
  others : ∀ b ∉ v, memory₂ b = memory b
  same : ∀ b, (memory₂ b).mPartOfMainCache = (memory b).mPartOfMainCache ∧
    (memory₂ b).mNext = (memory b).mNext ∧
    (memory₂ b).mBlockHeader.mParentBlock = (memory b).mBlockHeader.mParentBlock
  fixed : memory₂.fixed = memory.fixed
  work : ∃ w, memory.WorkOf lookup x w ∧ (memory₂.getTotalDiffField x).toNat = w % 2 ^ 64

theorem start_mTempNext (memory : WorkMemory α) (x b : α) :
    (start lookup memory x b).mTempNext = (memory b).mTempNext := by
  unfold start
  split_ifs
  · by_cases hb : b = x
    · rw [hb, setTotalDiffField_self]
    · rw [setTotalDiffField_of_ne hb]
  · rfl

theorem start_same (lookup : α → Option α) (memory : WorkMemory α) (x b : α) :
    (start lookup memory x b).mPartOfMainCache = (memory b).mPartOfMainCache ∧
      (start lookup memory x b).mNext = (memory b).mNext ∧
      (start lookup memory x b).mBlockHeader.mParentBlock = (memory b).mBlockHeader.mParentBlock := by
  unfold start
  split_ifs
  · by_cases hb : b = x
    · rw [hb, setTotalDiffField_self]
      exact ⟨rfl, rfl, rfl⟩
    · rw [setTotalDiffField_of_ne hb]
      exact ⟨rfl, rfl, rfl⟩
  · exact ⟨rfl, rfl, rfl⟩

theorem start_fixed (lookup : α → Option α) (memory : WorkMemory α) (x : α) : (start lookup memory x).fixed = memory.fixed := by
  unfold start
  split_ifs
  · exact fixed_setTotalDiffField memory x _
  · rfl

theorem start_of_ne {x : α} (hne : b ≠ x) : start lookup memory x b = memory b := by
  unfold start
  split_ifs
  · exact setTotalDiffField_of_ne hne
  · rfl

omit [DecidableEq α] in
/-- The blocks that are met are the first of the chain, the block itself among them. -/
theorem walked_of_chain (hchain : Chain (memory.getParent lookup) (some self) l) :
    (memory.walked l).Nodup ∧ (∀ b ∈ memory.walked l, b ∈ l) ∧
      ((memory.walked l).IsChain fun child b => memory.getParent lookup child = some b) ∧
      ∃ rest, memory.walked l = self :: rest := by
  have hprefix := memory.walked_prefix l
  refine ⟨hchain.nodup.sublist hprefix.sublist, fun b hb => hprefix.subset hb, hchain.isChain.prefix hprefix, ?_⟩
  cases hchain with
  | cons hrest =>
      rw [walked]
      split_ifs
      · exact ⟨_, rfl⟩
      · exact ⟨_, rfl⟩

/-- Where the chain is complete the way back begins with a right total. -/
theorem exists_started (hknown : memory.Known lookup) (hchain : Chain (memory.getParent lookup) (some self) l)
    (hcomplete : memory.Complete lookup l) :
    ∃ turns current previous x r,
      Loop.Returns (backTurn lookup) (memory, some self, none) turns
        (memory.threaded none (memory.walked l), current, previous) ∧
      (current = some x ∨ current = none ∧ previous = some x ∧
        (memory.threaded none (memory.walked l)).isGenesis lookup x = true) ∧
      Started lookup memory (start lookup (memory.threaded none (memory.walked l)) x) self (memory.walked l) r x := by
  obtain ⟨hnodup, -, hparents, rest, hwalked⟩ := walked_of_chain hchain
  obtain ⟨turns, current, previous, hreturns, x, hlast, hends⟩ := back_returns hchain none
  have hsame := memory.threaded_withoutTemp none (memory.walked l)
  have hlinks := threaded_isChain memory hnodup none
  have hothers : ∀ b ∉ memory.walked l, memory.threaded none (memory.walked l) b = memory b :=
    fun b hb => threaded_of_notMem hb
  have htip : (memory.threaded none (memory.walked l) self).mTempNext = (memory self).mTempNext := by
    have hhead := threaded_head memory (hwalked ▸ hnodup) none
    rw [← hwalked] at hhead
    exact hhead
  have hxmem : x ∈ memory.walked l := List.mem_of_getLast? hlast
  have hself : (memory.walked l).head? = some self := by rw [hwalked, List.head?_cons]
  generalize hv : memory.walked l = v at *
  generalize memory.threaded none v = memory₁ at *
  have hfixed : memory₁.fixed = memory.fixed := fixed_of_withoutTemp hsame
  have hstart := (start_fixed lookup memory₁ x).trans hfixed
  obtain ⟨r, hpath⟩ : ∃ r, v.reverse = x :: r := by
    rw [List.getLast?_eq_head?_reverse] at hlast
    exact List.head?_eq_some_iff.mp hlast
  have hstarted : Started lookup memory (start lookup memory₁ x) self v r x := by
    refine ⟨hpath, ?_, ?_, ?_, ?_, ?_, hstart, ?_⟩
    · rw [← hpath, List.isChain_reverse]
      refine (Chain.isChain_and hlinks hparents).imp fun child b hpair => ?_
      rw [start_mTempNext, getParent_congr hstart]
      exact hpair
    · rw [start_mTempNext, htip]
    · rw [← hpath, List.getLast?_reverse, hself]
    · intro b hb
      have hne : b ≠ x := fun heq => hb (heq ▸ hxmem)
      rw [start_of_ne hne, hothers b hb]
    · intro b
      obtain ⟨hmain, hnext, hparent⟩ := start_same lookup memory₁ x b
      rw [hmain, hnext, hparent]
      exact ⟨congrArg (·.mPartOfMainCache) (hsame b), congrArg (·.mNext) (hsame b),
        congrArg (·.mBlockHeader.mParentBlock) (hsame b)⟩
    · have htotal := totals_of_withoutTemp (hsame x)
      rcases hends with ⟨hx, -⟩ | ⟨hx, -, -, hwhole⟩
      · refine ⟨_, hknown x hx, ?_⟩
        rw [start, if_neg (by rw [htotal]; exact fun h => hx h.1), htotal, Nat.mod_eq_of_lt (UInt64.toNat_lt _)]
      · have hgenesis := hcomplete x (hwhole ▸ hlast)
        have hgenesis₁ : memory₁.isGenesis lookup x = true := by rw [isGenesis_congr hfixed, hgenesis]
        refine ⟨_, workOf_genesis hgenesis, ?_⟩
        rw [start, if_pos ⟨htotal.trans hx, hgenesis₁⟩, getTotalDiffField, setTotalDiffField_self,
          UInt64.toNat_ofNat', getDifficulty_congr hfixed]
  refine ⟨turns, current, previous, x, r, hreturns, ?_, hstarted⟩
  rcases hends with ⟨-, hcurrent⟩ | ⟨-, hcurrent, hprevious, hwhole⟩
  · exact .inl hcurrent
  · refine .inr ⟨hcurrent, hprevious, ?_⟩
    rw [isGenesis_congr hfixed]
    exact hcomplete x (hwhole ▸ hlast)

/-- Where an ancestor is missing only temporary pointers are set. -/
theorem exists_missing (hknown : memory.Known lookup) (hchain : Chain (memory.getParent lookup) (some self) l)
    (hmissing : ¬ memory.Complete lookup l) {out : eBlockVerificationResult × UInt64 × WorkMemory α} :
    (∃ fuel, getTotaWorkDoneInt fuel lookup memory self = some out) ↔
      out = (.unknownBlockOnPath, 0, memory.threaded none l) := by
  have hzero : ∀ b ∈ l, memory.getTotalDiffField b = 0 := by
    intro b hb
    by_contra htotal
    exact hmissing (complete_of_known hknown hchain hb htotal)
  have hself : self ∈ l := by
    cases hchain
    exact List.mem_cons_self
  obtain ⟨turns, current, previous, hreturns, x, hlast, hends⟩ := back_returns hchain none
  have hxmem := (memory.walked_prefix l).subset (List.mem_of_getLast? hlast)
  obtain ⟨-, rfl, rfl, hwhole⟩ := hends.resolve_left fun h => h.1 (hzero x hxmem)
  rw [hwhole] at hreturns hlast
  refine exists_answer_of_missing (hzero self hself) hreturns ?_
  rw [isGenesis_congr (fixed_of_withoutTemp (memory.threaded_withoutTemp none l)), ← Bool.not_eq_true]
  intro hgenesis
  refine hmissing fun g hg => ?_
  rw [hlast, Option.mem_some_iff] at hg
  exact hg ▸ hgenesis

/-! ### The sum -/

theorem sumsWork_of_known (hknown : memory.Known lookup) (hchain : Chain (memory.getParent lookup) (some self) l)
    (htotal : memory.getTotalDiffField self ≠ 0) : SumsWork lookup memory self l := by
  have hself : self ∈ l := by
    cases hchain
    exact List.mem_cons_self
  have hcomplete := complete_of_known hknown hchain hself htotal
  have hpos : 0 < memory.getTotalDiffField self := UInt64.pos_iff_ne_zero.mpr htotal
  refine ⟨0, _, _, memory, by rw [getTotaWorkDoneInt, if_pos hpos], fun _ => ⟨rfl, ?_, hknown⟩,
    fun hmissing => absurd hcomplete hmissing, fun _ _ => rfl⟩
  exact (hknown self htotal).unique ⟨l, hchain, hcomplete, rfl⟩

theorem sumsWork_missing_iff (hknown : memory.Known lookup) (hchain : Chain (memory.getParent lookup) (some self) l)
    (hmissing : ¬ memory.Complete lookup l) :
    SumsWork lookup memory self l ↔ l.IsChain fun child b => (memory b).mPartOfMainCache = true →
      (memory b).mTempNext = some child := by
  have hsame := memory.threaded_withoutTemp none l
  have hlinks : (∀ b, (memory b).mPartOfMainCache = true → (memory.threaded none l).links b = memory.links b) ↔
      ∀ b ∈ l, (memory b).mPartOfMainCache = true →
        (memory.threaded none l b).mTempNext = (memory b).mTempNext := by
    constructor
    · intro hlinks b _ hmain
      exact congrArg (·.2.2) (hlinks b hmain)
    · intro htemps b hmain
      by_cases hb : b ∈ l
      · refine Prod.ext (congrArg (·.mNext) (hsame b)) (Prod.ext ?_ (htemps b hb hmain))
        exact congrArg (·.mBlockHeader.mParentBlock) (hsame b)
      · rw [links, threaded_of_notMem hb]
        rfl
  rw [threaded_same_iff hchain.nodup none, Option.toList_none, List.nil_append] at hlinks
  rw [← hlinks]
  constructor
  · rintro ⟨fuel, result, totalDiff, after, hcall, hanswered⟩
    cases (exists_missing hknown hchain hmissing).mp ⟨fuel, hcall⟩
    exact hanswered.links
  · intro hkept
    obtain ⟨fuel, hcall⟩ := (exists_missing hknown hchain hmissing).mpr rfl
    exact ⟨fuel, _, _, _, hcall, fun hcomplete => absurd hcomplete hmissing,
      fun _ => ⟨rfl, fun b => totals_of_withoutTemp (hsame b)⟩, hkept⟩

/-- The way back where nothing hangs on the temporary pointer of the block itself. -/
theorem Started.returns {memory₂ : WorkMemory α} {r : List α} {x : α}
    (hstarted : Started lookup memory memory₂ self v r x) (hnodup : v.Nodup)
    (htip : (memory self).mTempNext = none) :
    ∃ turns after, Loop.Returns forwardTurn (memory₂, some x) turns (after, none) ∧
      Summed lookup memory after v := by
  obtain ⟨w, hwork, htotal⟩ := hstarted.work
  have hmem : ∀ b, b ∈ x :: r ↔ b ∈ v := fun b => by rw [← hstarted.path, List.mem_reverse]
  have hnodup' : (x :: r).Nodup := by rw [← hstarted.path, List.nodup_reverse]; exact hnodup
  obtain ⟨turns, after, hreturns, hsummed⟩ := forward_returns hstarted.links hnodup'
    (fun z hz => by
      rw [hstarted.last, Option.mem_some_iff] at hz
      rw [← hz, hstarted.tip, htip])
    ((workOf_congr hstarted.fixed).mpr hwork) htotal
  refine ⟨turns, after, hreturns, ?_, ?_, ?_, ?_⟩
  · intro b hb
    rw [hsummed.others b (by rwa [hmem]), hstarted.others b hb]
  · intro b hb
    exact hsummed.cleared b ((hmem b).mpr hb)
  · intro b hmain
    obtain ⟨hsame, hnext, hparent⟩ := hstarted.same b
    rw [← hnext, ← hparent]
    exact hsummed.main b (hsame.trans hmain)
  · intro b hb
    obtain ⟨w', hwork', htotal'⟩ := hsummed.totals b ((hmem b).mpr hb)
    exact ⟨w', (workOf_congr hstarted.fixed).mp hwork', htotal'⟩

theorem sumsWork_of_complete (hknown : memory.Known lookup) (hchain : Chain (memory.getParent lookup) (some self) l)
    (hcomplete : memory.Complete lookup l) (hzero : memory.getTotalDiffField self = 0)
    (hundisturbed : Undisturbed lookup memory self l) : SumsWork lookup memory self l := by
  obtain ⟨hnodup, hsubset, -, rest, hwalked⟩ := walked_of_chain hchain
  obtain ⟨turns, current, previous, x, r, hback, hstart, hstarted⟩ := exists_started hknown hchain hcomplete
  obtain ⟨turns', after, hforward, hsummed⟩ := hstarted.returns hnodup (hundisturbed.tip hcomplete)
  have htotals : ∀ b ∈ memory.walked l, memory.WorkOf lookup b (after.getTotalDiffField b).toNat := by
    intro b hb
    obtain ⟨w, hwork, htotal⟩ := hsummed.totals b hb
    obtain ⟨w', hwork', hle⟩ := workOf_mem hchain hcomplete (hsubset b hb)
    obtain rfl := hwork.unique hwork'
    rw [htotal, Nat.mod_eq_of_lt (hle.trans_lt (hundisturbed.small hcomplete))]
    exact hwork
  have hself : self ∈ memory.walked l := hwalked ▸ List.mem_cons_self
  obtain ⟨fuel, hcall⟩ := (exists_answer_of_start hzero hback hstart).mpr
    (exists_sumForward_iff.mpr ⟨turns', none, hforward, rfl, rfl⟩)
  refine ⟨fuel, _, _, after, hcall, fun _ => ⟨rfl, ?_, fun b htotal => ?_⟩,
    fun hmissing => absurd hcomplete hmissing, fun b hmain => ?_⟩
  · exact (htotals self hself).unique ⟨l, hchain, hcomplete, rfl⟩
  · by_cases hb : b ∈ memory.walked l
    · exact htotals b hb
    · rw [getTotalDiffField, hsummed.others b hb] at htotal ⊢
      exact hknown b htotal
  · by_cases hb : b ∈ memory.walked l
    · obtain ⟨hnext, hparent⟩ := hsummed.main b hmain
      refine Prod.ext hnext (Prod.ext hparent ?_)
      exact (hsummed.cleared b hb).trans (hundisturbed.free hcomplete b hb hmain).symm
    · rw [links, hsummed.others b hb]
      rfl

theorem undisturbed_of_sumsWork (hknown : memory.Known lookup)
    (hchain : Chain (memory.getParent lookup) (some self) l) (hcomplete : memory.Complete lookup l)
    (hzero : memory.getTotalDiffField self = 0) (hsums : SumsWork lookup memory self l) :
    Undisturbed lookup memory self l ∨ Beyond lookup memory self l := by
  obtain ⟨hnodup, hsubset, -, rest, hwalked⟩ := walked_of_chain hchain
  have hself : self ∈ memory.walked l := hwalked ▸ List.mem_cons_self
  obtain ⟨turns, current, previous, x, r, hback, hstart, hstarted⟩ := exists_started hknown hchain hcomplete
  obtain ⟨fuel, result, totalDiff, after, hcall, hanswered⟩ := hsums
  obtain ⟨turns', last, hforward, -, rfl⟩ :=
    exists_sumForward_iff.mp ((exists_answer_of_start hzero hback hstart).mp ⟨fuel, hcall⟩)
  have hfree : ∀ b ∈ memory.walked l, (memory b).mPartOfMainCache = true → (memory b).mTempNext = none := by
    intro b hb hmain
    have hnodup' : (x :: r).Nodup := by rw [← hstarted.path, List.nodup_reverse]; exact hnodup
    have hcleared := forward_clears (hstarted.links.imp fun _ _ hlink => hlink.1) hnodup' hforward b
      (by rw [← hstarted.path, List.mem_reverse]; exact hb)
    rw [← hcleared]
    exact (congrArg (·.2.2) (hanswered.links b hmain)).symm
  by_cases htip : (memory self).mTempNext = none
  · refine .inl ⟨fun _ => htip, fun _ => ?_, fun _ => hfree, fun hmissing => absurd hcomplete hmissing⟩
    obtain ⟨turns'', after', hforward', hsummed⟩ := hstarted.returns hnodup htip
    obtain ⟨-, heq⟩ := hforward.unique hforward'
    obtain ⟨w, hwork, htotal⟩ := hsummed.totals self hself
    obtain rfl := hwork.unique ⟨l, hchain, hcomplete, rfl⟩
    obtain rfl : after = after' := congrArg Prod.fst heq
    rw [← (hanswered.complete hcomplete).2.1]
    exact UInt64.toNat_lt _
  · refine .inr ⟨hcomplete, ?_, htip⟩
    rw [← Bool.not_eq_true]
    exact fun hmain => htip (hfree self hself hmain)

end WorkMemory

open WorkMemory in
theorem getTotalWorkDone_sums {lookup : α → Option α} {memory : WorkMemory α} {self : α} {l : List α}
    (hknown : memory.Known lookup) (hchain : Chain (memory.getParent lookup) (some self) l) :
    (memory.getTotalDiffField self ≠ 0 ∨ Undisturbed lookup memory self l → SumsWork lookup memory self l) ∧
      (SumsWork lookup memory self l → memory.getTotalDiffField self ≠ 0 ∨ Undisturbed lookup memory self l ∨
        Beyond lookup memory self l) := by
  by_cases hzero : memory.getTotalDiffField self = 0
  · by_cases hcomplete : memory.Complete lookup l
    · refine ⟨fun h => sumsWork_of_complete hknown hchain hcomplete hzero (h.resolve_left (not_not.mpr hzero)), ?_⟩
      exact fun hsums => .inr (undisturbed_of_sumsWork hknown hchain hcomplete hzero hsums)
    · have hmissing := sumsWork_missing_iff hknown hchain hcomplete
      refine ⟨fun h => hmissing.mpr ((h.resolve_left (not_not.mpr hzero)).missing hcomplete), fun hsums => ?_⟩
      refine .inr (.inl ?_)
      exact ⟨fun h => absurd h hcomplete, fun h => absurd h hcomplete, fun h => absurd h hcomplete,
        fun _ => hmissing.mp hsums⟩
  · exact ⟨fun _ => sumsWork_of_known hknown hchain hzero, fun _ => .inl hzero⟩

/-! ### A missing ancestor -/

/-- A key block for every height. -/
def keyChain (height : ℕ) : BlockNode (HeaderNode ℕ) ℕ where
  mBlockHeader := { mIsKeyBlock := true, mHeight := height, getDifficulty := 1 }

/-- The parents of blocks above this height are found. -/
def parentAbove (lowest height : ℕ) : Option ℕ := if lowest < height then some (height - 1) else none

theorem known_keyChain (lookup : ℕ → Option ℕ) : WorkMemory.Known lookup keyChain := fun _ htotal => absurd rfl htotal

theorem keyChain_sums : WorkMemory.SumsWork (parentAbove 0) keyChain 2 [2, 1, 0] := by
  have hcomplete : WorkMemory.Complete (parentAbove 0) keyChain [2, 1, 0] := by
    intro g hg
    cases hg
    rfl
  have hchain : Chain (WorkMemory.getParent keyChain (parentAbove 0)) (some 2) [2, 1, 0] := .cons (.cons (.cons .nil))
  refine (getTotalWorkDone_sums (known_keyChain _) hchain).1 (.inr ?_)
  exact ⟨fun _ => rfl, fun _ => by decide, fun _ _ _ _ => rfl, fun hmissing => absurd hcomplete hmissing⟩

/-- The parent of block `1` is missing: its temporary pointer still leads to block `2` afterwards. -/
theorem missing_ancestor_linked : WorkMemory.Known (parentAbove 1) keyChain ∧
    Chain (WorkMemory.getParent keyChain (parentAbove 1)) (some 2) [2, 1] ∧
    ¬ WorkMemory.SumsWork (parentAbove 1) keyChain 2 [2, 1] := by
  have hchain : Chain (WorkMemory.getParent keyChain (parentAbove 1)) (some 2) [2, 1] := .cons (.cons .nil)
  have hmissing : ¬ WorkMemory.Complete (parentAbove 1) keyChain [2, 1] := by
    intro hcomplete
    exact absurd (hcomplete 1 rfl) (by decide)
  refine ⟨known_keyChain _, hchain, fun hsums => ?_⟩
  have hlinked := (WorkMemory.sumsWork_missing_iff (known_keyChain _) hchain hmissing).mp hsums
  exact absurd ((List.isChain_cons_cons.mp hlinked).1 rfl) (by decide)

end Gridnet
