import Gridnet.Difficulty

/-! The two modes of `getMinDIfficultyForBlock` side by side. The optimized mode starts with the averages that the last
update stored, and takes an average of zero for a missing one. -/

namespace Gridnet

open MovingAverage

variable {S : DifficultySettings}

/-! ### Calls that update nothing -/

/-- What an answer depends on beside its call: the leaders and the two cached averages. -/
structure SameCoefficients (node node' : DifficultyNode) : Prop where
  leader : node'.leader = node.leader
  cachedLeader : node'.cachedLeader = node.cachedLeader
  emaTimeBetweenBlocks : node'.emaTimeBetweenBlocks = node.emaTimeBetweenBlocks
  emaDifficultyCoefficient : node'.emaDifficultyCoefficient = node.emaDifficultyCoefficient

theorem SameCoefficients.refl (node : DifficultyNode) : SameCoefficients node node := ⟨rfl, rfl, rfl, rfl⟩

theorem SameCoefficients.trans {node node' node'' : DifficultyNode} (h : SameCoefficients node node')
    (h' : SameCoefficients node' node'') : SameCoefficients node node'' :=
  ⟨h'.leader.trans h.leader, h'.cachedLeader.trans h.cachedLeader,
    h'.emaTimeBetweenBlocks.trans h.emaTimeBetweenBlocks,
    h'.emaDifficultyCoefficient.trans h.emaDifficultyCoefficient⟩

theorem difficultyAnswer_sameCoefficients (useOptimization : Bool) (st : EmaState) (node : DifficultyNode) :
    SameCoefficients node (difficultyAnswer S useOptimization st node).2 := by
  unfold difficultyAnswer reportSMA
  split_ifs
  · exact .refl node
  · exact .refl node
  · exact ⟨rfl, rfl, rfl, rfl⟩

/-- A call leaves the averages, or stores those it has computed. -/
theorem call_effect (call : DifficultyCall) (node : DifficultyNode) :
    SameCoefficients node (getMinDIfficultyForBlock S call node).2 ∨
      call.updateLIVECoefficients = true ∧
        ∃ st, SameCoefficients (node.store st) (getMinDIfficultyForBlock S call node).2 := by
  -- the node that the answer is given with
  have hanswer : ∀ (useOptimization store : Bool) (st : EmaState), (store = true → call.updateLIVECoefficients = true) →
      SameCoefficients node (difficultyAnswer S useOptimization st (if store then node.store st else node)).2 ∨
        call.updateLIVECoefficients = true ∧ ∃ st', SameCoefficients (node.store st')
          (difficultyAnswer S useOptimization st (if store then node.store st else node)).2 := by
    intro useOptimization store st hstore
    cases store with
    | false => exact .inl (difficultyAnswer_sameCoefficients _ _ node)
    | true => exact .inr ⟨hstore rfl, st, difficultyAnswer_sameCoefficients _ _ _⟩
  unfold getMinDIfficultyForBlock
  dsimp only
  split
  case h_1 => exact .inl (.refl node)
  case h_2 =>
    split
    case h_1 => exact .inl (.refl node)
    case h_2 =>
      by_cases hnow : call.now = 0
      · rw [if_pos hnow]
        by_cases hstore : (call.useOptimization && call.forcedAlpha = 0 && call.forcedStepFactor = 0) = false ∧
            call.updateLIVECoefficients = true
        · rw [if_pos hstore]
          exact hanswer _ true _ fun _ => hstore.2
        · rw [if_neg hstore]
          exact hanswer _ false _ fun h => absurd h (by decide)
      · rw [if_neg hnow]
        split
        case h_1 => exact .inl (.refl node)
        case h_2 => exact hanswer _ _ _ id

/-- A call that is not to update them leaves the averages. -/
theorem sameCoefficients_of_call {call : DifficultyCall} (hupdate : call.updateLIVECoefficients = false)
    (node : DifficultyNode) : SameCoefficients node (getMinDIfficultyForBlock S call node).2 := by
  rcases call_effect call node with hsame | ⟨hstores, -⟩
  · exact hsame
  · exact absurd (hupdate.symm.trans hstores) (by decide)

/-- No call changes a leader. -/
theorem leaders_of_call (call : DifficultyCall) (node : DifficultyNode) :
    (getMinDIfficultyForBlock S call node).2.leader = node.leader ∧
      (getMinDIfficultyForBlock S call node).2.cachedLeader = node.cachedLeader := by
  rcases call_effect (S := S) call node with hsame | ⟨-, st, hsame⟩
  · exact ⟨hsame.leader, hsame.cachedLeader⟩
  · exact ⟨hsame.leader, hsame.cachedLeader⟩

/-- Calls one after the other. -/
def runDifficultyCalls (S : DifficultySettings) (calls : List DifficultyCall) (node : DifficultyNode) :
    DifficultyNode :=
  calls.foldl (fun node call => (getMinDIfficultyForBlock S call node).2) node

theorem sameCoefficients_of_calls {calls : List DifficultyCall}
    (hupdate : ∀ call ∈ calls, call.updateLIVECoefficients = false) (node : DifficultyNode) :
    SameCoefficients node (runDifficultyCalls S calls node) := by
  induction calls generalizing node with
  | nil => exact .refl node
  | cons call calls ih =>
      apply (sameCoefficients_of_call (S := S) (hupdate call List.mem_cons_self) node).trans
      exact ih (fun other hmem => hupdate other (List.mem_cons_of_mem _ hmem)) _

/-- The difficulty and the flag of an answer; the rest is for reports. -/
def DifficultyAnswer.verdict (answer : DifficultyAnswer) : Bool × ℚ := (answer.ok, answer.difficulty)

/-- What a call answers, with the blocks it looks at and the averages it starts with. -/
def verdictFrom (S : DifficultySettings) (alpha : ℚ) (now : ℕ) (st : KeyBlock → EmaState)
    (current : Except DifficultyAnswer KeyBlock) : Bool × ℚ :=
  match current with
  | .error answer => answer.verdict
  | .ok currentBlock =>
      match parentBlockFor currentBlock with
      | .error answer => answer.verdict
      | .ok parentBlock =>
          if now = 0 then (true, adjustedDifficulty S (st currentBlock))
          else
            match accountForNow S alpha currentBlock parentBlock now (st currentBlock) with
            | none => (false, PROHIBITIVE_DIFFICULTY)
            | some st => (true, adjustedDifficulty S st)

theorem verdict_eq (call : DifficultyCall) (node : DifficultyNode) :
    (getMinDIfficultyForBlock S call node).1.verdict =
      let useOptimization := call.useOptimization && call.forcedAlpha = 0 && call.forcedStepFactor = 0
      let alpha := if call.forcedAlpha ≠ 0 then call.forcedAlpha else S.getPoWDiffBaseAlpha
      verdictFrom S alpha call.now (if useOptimization then fun _ => cachedEma S node else recomputedEma S alpha)
        (currentBlockFor node useOptimization call.block) := by
  unfold getMinDIfficultyForBlock verdictFrom
  dsimp only
  cases currentBlockFor node (call.useOptimization && call.forcedAlpha = 0 && call.forcedStepFactor = 0) call.block with
  | error answer => rfl
  | ok currentBlock =>
      dsimp only
      cases parentBlockFor currentBlock with
      | error answer => rfl
      | ok parentBlock =>
          have hst : (if (call.useOptimization && call.forcedAlpha = 0 && call.forcedStepFactor = 0) = true then
                fun _ => cachedEma S node
              else recomputedEma S (if call.forcedAlpha ≠ 0 then call.forcedAlpha else S.getPoWDiffBaseAlpha)) currentBlock =
              if (call.useOptimization && call.forcedAlpha = 0 && call.forcedStepFactor = 0) = true then cachedEma S node
              else recomputedEma S (if call.forcedAlpha ≠ 0 then call.forcedAlpha else S.getPoWDiffBaseAlpha)
                currentBlock := by
            split_ifs <;> rfl
          dsimp only
          rw [hst]
          by_cases hnow : call.now = 0
          · rw [if_pos hnow, if_pos hnow]
            rfl
          · rw [if_neg hnow, if_neg hnow]
            cases accountForNow S _ currentBlock parentBlock call.now _ with
            | none => rfl
            | some st => rfl

theorem verdict_congr {node node' : DifficultyNode} (hsame : SameCoefficients node node') (call : DifficultyCall) :
    (getMinDIfficultyForBlock S call node').1.verdict = (getMinDIfficultyForBlock S call node).1.verdict := by
  have hcached : cachedEma S node' = cachedEma S node := by
    unfold cachedEma
    rw [hsame.emaTimeBetweenBlocks, hsame.emaDifficultyCoefficient]
  have hblock : ∀ useOptimization, currentBlockFor node' useOptimization call.block =
      currentBlockFor node useOptimization call.block := by
    intro useOptimization
    unfold currentBlockFor
    rw [hsame.leader, hsame.cachedLeader]
  rw [verdict_eq, verdict_eq, hcached]
  dsimp only
  rw [hblock]

/-! ### The averages of both modes -/

/-- The samples whose difficulties are averaged. -/
def averagedSamples (S : DifficultySettings) (currentBlock : KeyBlock) : List DifficultySample :=
  match timeSeries S currentBlock with
  | [only] => [only]
  | series => series.dropLast

theorem emaLoop_pos {st : EmaState} (hpos : 0 < st.emaTimeBetweenBlocks) (series : List DifficultySample) :
    0 < (emaLoop S S.getPoWDiffBaseAlpha st series).emaTimeBetweenBlocks := by
  induction series generalizing st with
  | nil => exact hpos
  | cons current series ih =>
      cases series with
      | nil => exact hpos
      | cons parent older =>
          apply ih
          apply step_pos S.alpha_pos S.alpha_lt_one _ (Nat.cast_nonneg _)
          split_ifs
          · exact S.target_cast_pos
          · exact hpos

theorem recomputedEma_pos (currentBlock : KeyBlock) :
    0 < (recomputedEma S S.getPoWDiffBaseAlpha currentBlock).emaTimeBetweenBlocks := by
  unfold recomputedEma
  split
  · exact S.target_cast_pos
  · exact emaLoop_pos S.target_cast_pos _

/-- The average of the difficulties is not negative, and zero exactly where all of them are. -/
theorem recomputedEma_difficulty (currentBlock : KeyBlock) :
    0 ≤ (recomputedEma S S.getPoWDiffBaseAlpha currentBlock).emaDifficulty ∧
      ((recomputedEma S S.getPoWDiffBaseAlpha currentBlock).emaDifficulty = 0 ↔
        ∀ sample ∈ averagedSamples S currentBlock, sample.difficulty = 0) := by
  have hloop : ∀ series, 0 ≤ (emaLoop S S.getPoWDiffBaseAlpha (initialEma S) series).emaDifficulty ∧
      ((emaLoop S S.getPoWDiffBaseAlpha (initialEma S) series).emaDifficulty = 0 ↔
        ∀ sample ∈ series.dropLast, sample.difficulty = 0) := by
    intro series
    have hnonneg : ∀ value ∈ series.dropLast.map fun sample => (sample.difficulty : ℚ), 0 ≤ value := by
      intro value hmem
      obtain ⟨sample, -, rfl⟩ := List.mem_map.mp hmem
      exact Nat.cast_nonneg _
    have hstart : (initialEma S).emaDifficulty = 0 := rfl
    rw [emaLoop_difficulty, hstart, run_eq_zero S.alpha_pos S.alpha_lt_one le_rfl hnonneg]
    refine ⟨run_nonneg S.alpha_pos S.alpha_lt_one le_rfl hnonneg, ?_⟩
    simp only [true_and, List.forall_mem_map, Nat.cast_eq_zero]
  unfold recomputedEma averagedSamples
  rcases timeSeries S currentBlock with _ | ⟨only, _ | ⟨next, older⟩⟩
  · exact hloop []
  · simp
  · exact hloop (only :: next :: older)

/-! ### Coherence -/

/-- After an update with the leader, and any calls that update nothing, both modes answer the same about it. -/
def CoherentModes (S : DifficultySettings) (node : DifficultyNode) (leader : Option AnyBlock) (now : ℕ) : Prop :=
  ∀ calls : List DifficultyCall, (∀ call ∈ calls, call.updateLIVECoefficients = false) →
    let updated := (getMinDIfficultyForBlock S
      { block := leader, useOptimization := false, updateLIVECoefficients := true } node).2
    let node := runDifficultyCalls S calls updated
    (getMinDIfficultyForBlock S { block := leader, now, useOptimization := true } node).1.verdict =
      (getMinDIfficultyForBlock S { block := leader, now, useOptimization := false } node).1.verdict

/-- There is a leader, and unless the answer is given early, a difficulty other than zero is averaged, or the
difficulty that stands in for a missing one is not above the floor. -/
def CoefficientsServe (S : DifficultySettings) (node : DifficultyNode) (leader : Option AnyBlock) (now : ℕ) : Prop :=
  (leader = none → node.leader ≠ none) ∧
    ∀ currentBlock parentBlock, currentBlockFor node false leader = .ok currentBlock →
      parentBlockFor currentBlock = .ok parentBlock → currentBlock.getHeader.getSolvedAtTime ≠ 0 →
      (∃ sample ∈ averagedSamples S currentBlock, sample.difficulty ≠ 0) ∨
        S.getTargetedBlockInterval ≤ S.getHardForkDifficulty *
          step S.getPoWDiffBaseAlpha S.getTargetedBlockInterval (intervalToNow S currentBlock parentBlock now)

/-- The averages that the update of a leader leaves. -/
theorem updated_coefficients {node : DifficultyNode} {leader : Option AnyBlock} {currentBlock parentBlock : KeyBlock}
    (hcurrent : currentBlockFor node false leader = .ok currentBlock)
    (hparent : parentBlockFor currentBlock = .ok parentBlock) :
    SameCoefficients (node.store (recomputedEma S S.getPoWDiffBaseAlpha currentBlock))
      (getMinDIfficultyForBlock S
        { block := leader, useOptimization := false, updateLIVECoefficients := true } node).2 := by
  simp only [getMinDIfficultyForBlock, Bool.false_and, hcurrent, hparent, ne_eq, not_true_eq_false, if_false,
    Bool.false_eq_true, and_self, if_true]
  exact difficultyAnswer_sameCoefficients _ _ _

/-- The update and the calls after it leave averages with which both modes answer as right after the update. -/
theorem coherentModes_iff_updated {node : DifficultyNode} {leader : Option AnyBlock} {now : ℕ} :
    CoherentModes S node leader now ↔
      ∀ updated, updated = (getMinDIfficultyForBlock S
        { block := leader, useOptimization := false, updateLIVECoefficients := true } node).2 →
        verdictFrom S S.getPoWDiffBaseAlpha now (fun _ => cachedEma S updated) (currentBlockFor node true leader) =
          verdictFrom S S.getPoWDiffBaseAlpha now (recomputedEma S S.getPoWDiffBaseAlpha)
            (currentBlockFor node false leader) := by
  have hblock : ∀ updated useOptimization, updated = (getMinDIfficultyForBlock S
      { block := leader, useOptimization := false, updateLIVECoefficients := true } node).2 →
      currentBlockFor updated useOptimization leader = currentBlockFor node useOptimization leader := by
    rintro updated useOptimization rfl
    obtain ⟨hleader, hcached⟩ := leaders_of_call (S := S)
      { block := leader, useOptimization := false, updateLIVECoefficients := true } node
    unfold currentBlockFor
    rw [hleader, hcached]
  have hverdicts : ∀ updated, updated = (getMinDIfficultyForBlock S
      { block := leader, useOptimization := false, updateLIVECoefficients := true } node).2 →
      ((getMinDIfficultyForBlock S { block := leader, now, useOptimization := true } updated).1.verdict =
        (getMinDIfficultyForBlock S { block := leader, now, useOptimization := false } updated).1.verdict ↔
          verdictFrom S S.getPoWDiffBaseAlpha now (fun _ => cachedEma S updated) (currentBlockFor node true leader) =
            verdictFrom S S.getPoWDiffBaseAlpha now (recomputedEma S S.getPoWDiffBaseAlpha)
              (currentBlockFor node false leader)) := by
    intro updated hupdated
    rw [verdict_eq, verdict_eq, ← hblock updated true hupdated, ← hblock updated false hupdated]
    simp
  constructor
  · rintro hcoherent updated rfl
    exact (hverdicts _ rfl).mp (hcoherent [] (by simp))
  · intro hmodes calls hcalls
    have hsame := sameCoefficients_of_calls (S := S) hcalls (getMinDIfficultyForBlock S
      { block := leader, useOptimization := false, updateLIVECoefficients := true } node).2
    dsimp only
    rw [verdict_congr hsame, verdict_congr hsame]
    exact (hverdicts _ rfl).mpr (hmodes _ rfl)

/-- A positive average is read back as it was stored. -/
theorem storedCoefficient_of_pos {stored : ℚ} (hpos : 0 < stored) : storedCoefficient stored = stored :=
  if_neg (not_le.mpr hpos)

/-- What stands in for a missing average shows, unless it is below the floor. -/
theorem max_floor_iff {x floor : ℚ} (hx : 0 < x) : max x floor = max 0 floor ↔ x ≤ floor := by
  constructor
  · intro heq
    by_contra hlt
    have hless : max 0 floor < x := max_lt hx (not_le.mp hlt)
    rw [← heq] at hless
    exact absurd (le_max_left x floor) (not_le.mpr hless)
  · intro hle
    rw [max_eq_right hle, max_eq_right (hx.le.trans hle)]

/-- Both modes take in the current moment alike; what they start with decides. -/
theorem adjusted_eq_iff {currentBlock parentBlock : KeyBlock} {now : ℕ} {updated : DifficultyNode}
    (hupdated : SameCoefficients
      (updated.store (recomputedEma S S.getPoWDiffBaseAlpha currentBlock)) updated)
    (hparent : parentBlockFor currentBlock = .ok parentBlock)
    (htime : currentBlock.getHeader.getSolvedAtTime ≠ 0) (hnow : now ≠ 0) :
    verdictFrom S S.getPoWDiffBaseAlpha now (fun _ => cachedEma S updated) (.ok currentBlock) =
        verdictFrom S S.getPoWDiffBaseAlpha now (recomputedEma S S.getPoWDiffBaseAlpha) (.ok currentBlock) ↔
      (∃ sample ∈ averagedSamples S currentBlock, sample.difficulty ≠ 0) ∨
        S.getTargetedBlockInterval ≤ S.getHardForkDifficulty *
          step S.getPoWDiffBaseAlpha S.getTargetedBlockInterval (intervalToNow S currentBlock parentBlock now) := by
  have hpos := recomputedEma_pos (S := S) currentBlock
  obtain ⟨hnonneg, hzero⟩ := recomputedEma_difficulty (S := S) currentBlock
  have hTime := hupdated.emaTimeBetweenBlocks
  have hDifficulty := hupdated.emaDifficultyCoefficient
  simp only [DifficultyNode.store] at hTime hDifficulty
  have hstep : ∀ average : ℚ, 0 < average →
      0 < step S.getPoWDiffBaseAlpha average (intervalToNow S currentBlock parentBlock now) :=
    fun average haverage => step_pos S.alpha_pos S.alpha_lt_one haverage (Nat.cast_nonneg _)
  simp only [verdictFrom, hparent, if_neg hnow, accountForNow, if_neg htime, Prod.mk.injEq, true_and]
  by_cases hnone : (recomputedEma S S.getPoWDiffBaseAlpha currentBlock).emaDifficulty = 0
  · have hcached : cachedEma S updated =
        { emaTimeBetweenBlocks := S.getTargetedBlockInterval, emaDifficulty := DEFAULT_DIFFICULTY } := by
      simp [cachedEma, hDifficulty, hnone, storedCoefficient]
    have hsamples : ¬∃ sample ∈ averagedSamples S currentBlock, sample.difficulty ≠ 0 := by
      simpa only [not_exists, not_and, not_not] using hzero.mp hnone
    have htarget := hstep _ S.target_cast_pos
    rw [hcached, adjustedDifficulty_of_pos htarget, adjustedDifficulty_of_pos (hstep _ hpos)]
    simp only [hnone, zero_mul, DEFAULT_DIFFICULTY, one_mul, hsamples, false_or]
    rw [max_floor_iff (div_pos S.target_cast_pos htarget), div_le_iff₀ htarget]
  · have hdifficult : 0 < (recomputedEma S S.getPoWDiffBaseAlpha currentBlock).emaDifficulty :=
      lt_of_le_of_ne hnonneg (Ne.symm hnone)
    have hcached : cachedEma S updated =
        { emaTimeBetweenBlocks := (recomputedEma S S.getPoWDiffBaseAlpha currentBlock).emaTimeBetweenBlocks
          emaDifficulty := (recomputedEma S S.getPoWDiffBaseAlpha currentBlock).emaDifficulty } := by
      simp [cachedEma, hTime, hDifficulty, storedCoefficient_of_pos hpos, storedCoefficient_of_pos hdifficult, hpos.ne',
        hnone]
    have hsamples : ∃ sample ∈ averagedSamples S currentBlock, sample.difficulty ≠ 0 := by
      by_contra hnot
      simp only [not_exists, not_and, not_not] at hnot
      exact hnone (hzero.mpr hnot)
    rw [hcached]
    exact iff_of_true rfl (.inl hsamples)

/-- Where a leader is to be found, both modes look at the same block. -/
theorem currentBlockFor_modes {node : DifficultyNode} {leader : Option AnyBlock}
    (hcached : node.cachedLeader = node.leader) (hleader : leader = none → node.leader ≠ none) :
    currentBlockFor node true leader = currentBlockFor node false leader := by
  rcases leader with _ | block
  · obtain ⟨block, hblock⟩ := Option.ne_none_iff_exists'.mp (hleader rfl)
    simp [currentBlockFor, hcached, hblock]
  · cases block with
    | key block => rfl
    | data keyBlock => cases keyBlock <;> rfl

/-- **The modes agree exactly where the stored averages serve**, and calls that update nothing change no answer. -/
theorem coherentModes_iff (S : DifficultySettings) (node : DifficultyNode) (leader : Option AnyBlock) (now : ℕ)
    (hcached : node.cachedLeader = node.leader) (hnow : 0 < now) :
    (CoherentModes S node leader now ↔ CoefficientsServe S node leader now) ∧
      ∀ calls : List DifficultyCall, (∀ call ∈ calls, call.updateLIVECoefficients = false) → ∀ call : DifficultyCall,
        (getMinDIfficultyForBlock S call (runDifficultyCalls S calls node)).1.verdict =
          (getMinDIfficultyForBlock S call node).1.verdict := by
  refine ⟨?_, fun calls hcalls call => verdict_congr (sameCoefficients_of_calls hcalls node) call⟩
  rw [coherentModes_iff_updated, forall_eq, CoefficientsServe]
  by_cases hleader : leader = none → node.leader ≠ none
  · rw [currentBlockFor_modes hcached hleader]
    cases hcurrent : currentBlockFor node false leader with
    | error answer => exact iff_of_true rfl ⟨hleader, by simp⟩
    | ok currentBlock =>
        cases hparent : parentBlockFor currentBlock with
        | error answer =>
            apply iff_of_true
            · simp only [verdictFrom, hparent]
            · refine ⟨hleader, ?_⟩
              intro block parentBlock hblock hsome
              cases hblock
              exact absurd (hparent.symm.trans hsome) (by simp)
        | ok parentBlock =>
            have hupdated := updated_coefficients (S := S) hcurrent hparent
            by_cases htime : currentBlock.getHeader.getSolvedAtTime = 0
            · apply iff_of_true
              · simp only [verdictFrom, hparent, if_neg hnow.ne', accountForNow, if_pos htime]
              · refine ⟨hleader, ?_⟩
                intro block parentBlock' hblock _ htime'
                cases hblock
                exact absurd htime htime'
            · rw [adjusted_eq_iff ⟨rfl, rfl, hupdated.emaTimeBetweenBlocks, hupdated.emaDifficultyCoefficient⟩ hparent
                htime hnow.ne']
              constructor
              · intro hserve
                refine ⟨hleader, ?_⟩
                intro block parentBlock' hblock hparent' _
                cases hblock
                cases hparent.symm.trans hparent'
                exact hserve
              · intro hserve
                exact hserve.2 currentBlock parentBlock rfl hparent htime
  · -- no leader at all: the modes differ in how they say so
    apply iff_of_false
    · simp only [Classical.not_imp, not_not] at hleader
      obtain ⟨rfl, hnone⟩ := hleader
      simp [currentBlockFor, hcached, hnone, verdictFrom, DifficultyAnswer.verdict]
    · exact fun hserve => hleader hserve.1

/-- A leader of a given difficulty, its parent and the genesis block. -/
def leaderOf (difficulty : ℚ) : KeyBlock where
  getHeader := { getSolvedAtTime := 1200, getDifficulty := difficulty }
  ancestors := [{ getSolvedAtTime := 600, getDifficulty := 4 },
    { getSolvedAtTime := 1, getDifficulty := 1, isGenesis := true }]

def nodeOf (difficulty : ℚ) : DifficultyNode where
  leader := some (leaderOf difficulty)
  cachedLeader := some (leaderOf difficulty)

theorem coherentModes_nodeOf : CoherentModes threeSlots (nodeOf 5) none 1500 := by
  refine (coherentModes_iff threeSlots (nodeOf 5) none 1500 rfl (by decide)).1.mpr ⟨by simp [nodeOf], ?_⟩
  rintro currentBlock parentBlock hblock - -
  cases hblock
  exact .inl ⟨⟨1200, 5, false⟩, by decide +kernel, by decide⟩

/-- The difficulty zero of a leader is stored as a missing average. -/
theorem modesDiffer_nodeOf :
    ¬∀ (S : DifficultySettings) (node : DifficultyNode) (leader : Option AnyBlock) (now : ℕ),
      node.cachedLeader = node.leader → 0 < now → CoherentModes S node leader now := by
  intro hcoherent
  have hmodes := hcoherent threeSlots (nodeOf 0) (some (.key (leaderOf 0))) 1200 rfl (by decide) [] (by simp)
  revert hmodes
  decide +kernel

end Gridnet
