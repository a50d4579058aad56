import Mathlib.Algebra.BigOperators.Fin
import Mathlib.Algebra.Order.Archimedean.Basic
import Mathlib.Data.Rat.Floor
import Mathlib.Tactic.FieldSimp
import Gridnet.Difficulty

/-! What difficulty retargeting averages. In a window of ordinary key blocks the averages go from the most recent block
back in time, so that the oldest block weighs most, and the average of the difficulties starts at zero, so that the
weights do not sum to one. -/

namespace Gridnet

open MovingAverage

variable {S : DifficultySettings}

/-! ### The averages of ordinary key blocks -/

def KeyHeader.sample (header : KeyHeader) : DifficultySample :=
  ⟨header.getSolvedAtTime, toUInt64 header.getDifficulty, false⟩

/-- Ordinary blocks are sampled one by one, as long as the chain goes on behind them. -/
theorem sampleLoop_plain {newest : KeyHeader} {rest older : List KeyHeader}
    (hplain : ∀ header ∈ newest :: rest, header.isHardForkBlock = false) (holder : older ≠ []) :
    sampleLoop S (rest.length + 1) ⟨newest, rest ++ older⟩ = (newest :: rest).map KeyHeader.sample := by
  induction rest generalizing newest with
  | nil =>
      obtain ⟨next, older, rfl⟩ := List.exists_cons_of_ne_nil holder
      simp [sampleLoop, hplain, KeyBlock.getKeyBlockForBlock, KeyHeader.sample]
  | cons next rest ih =>
      have hnewest : newest.isHardForkBlock = false := hplain newest List.mem_cons_self
      rw [List.length_cons, sampleLoop, List.map_cons,
        ← ih fun header hmem => hplain header (List.mem_cons_of_mem _ hmem)]
      simp [hnewest, KeyBlock.getKeyBlockForBlock, KeyHeader.sample]

/-- The intervals between blocks, the most recent one first. -/
def intervalsBetween : List KeyHeader → List ℚ
  | newer :: older :: rest => ↑(newer.getSolvedAtTime - older.getSolvedAtTime) :: intervalsBetween (older :: rest)
  | _ => []

theorem intervalsBetween_nonneg (headers : List KeyHeader) : ∀ interval ∈ intervalsBetween headers, 0 ≤ interval := by
  induction headers with
  | nil => exact fun _ hmem => absurd hmem List.not_mem_nil
  | cons newer headers ih =>
      cases headers with
      | nil => exact fun _ hmem => absurd hmem List.not_mem_nil
      | cons older rest => exact List.forall_mem_cons.mpr ⟨Nat.cast_nonneg _, ih⟩

/-- Blocks that the loop treats without exceptions. -/
structure Regular (headers : List KeyHeader) : Prop where
  timed : ∀ header ∈ headers, 0 < header.getSolvedAtTime
  difficult : ∀ header ∈ headers, 0 < toUInt64 header.getDifficulty
  increasing : headers.Pairwise fun newer older => older.getSolvedAtTime < newer.getSolvedAtTime

theorem Regular.tail {header : KeyHeader} {headers : List KeyHeader} (hregular : Regular (header :: headers)) :
    Regular headers where
  timed := fun h hmem => hregular.timed h (List.mem_cons_of_mem _ hmem)
  difficult := fun h hmem => hregular.difficult h (List.mem_cons_of_mem _ hmem)
  increasing := hregular.increasing.of_cons

theorem emaLoop_intervals (alpha : ℚ) {headers : List KeyHeader} (hregular : Regular headers) (st : EmaState) :
    (emaLoop S alpha st (headers.map KeyHeader.sample)).emaTimeBetweenBlocks =
      run alpha st.emaTimeBetweenBlocks (intervalsBetween headers) := by
  induction headers generalizing st with
  | nil => rfl
  | cons newer headers ih =>
      cases headers with
      | nil => rfl
      | cons older rest =>
          have htime : older.getSolvedAtTime ≠ 0 := (hregular.timed older (by simp)).ne'
          have hdifficulty : toUInt64 older.getDifficulty ≠ 0 := (hregular.difficult older (by simp)).ne'
          have hafter : ¬newer.getSolvedAtTime ≤ older.getSolvedAtTime :=
            Nat.not_le.mpr ((List.pairwise_cons.mp hregular.increasing).1 older (by simp))
          have hturn : (emaStep S alpha st newer.sample older.sample).emaTimeBetweenBlocks =
              step alpha st.emaTimeBetweenBlocks ((newer.getSolvedAtTime - older.getSolvedAtTime : ℕ) : ℚ) := by
            simp [emaStep, KeyHeader.sample, htime, hdifficulty, hafter]
          rw [List.map_cons, List.map_cons, emaLoop]
          rw [List.map_cons] at ih
          rw [ih hregular.tail, hturn, intervalsBetween, run_cons]

/-! ### Windows -/

/-- What windows there are: whether their difficulties may have fractions, and whether they may follow upon a
hard-fork block. -/
structure WindowKind where
  fractional : Bool
  afterFork : Bool
  deriving DecidableEq

/-- A window of ordinary key blocks, the most recent one first, with the chain before it and the current moment. -/
structure KeyWindow (S : DifficultySettings) (kind : WindowKind) where
  newest : KeyHeader
  rest : List KeyHeader
  before : KeyHeader
  older : List KeyHeader
  now : ℕ
  size : rest.length + 2 = S.getKeyBlockDiffWindowSize
  plain : ∀ header ∈ newest :: rest, header.isHardForkBlock = false
  noGenesis : ∀ header ∈ newest :: rest, header.isGenesis = false
  timed : ∀ header ∈ newest :: rest, 0 < header.getSolvedAtTime
  difficult : ∀ header ∈ newest :: rest, 0 < header.getDifficulty
  increasing : (newest :: rest).Pairwise fun newer older => older.getSolvedAtTime < newer.getSolvedAtTime
  beforeNow : newest.getSolvedAtTime < now
  whole : kind.fractional = false →
    ∀ header ∈ newest :: rest, (toUInt64 header.getDifficulty : ℚ) = header.getDifficulty
  unforked : kind.afterFork = false → before.isHardForkBlock = false

namespace KeyWindow

variable {kind : WindowKind} (win : KeyWindow S kind)

def currentBlock : KeyBlock := ⟨win.newest, win.rest ++ win.before :: win.older⟩

/-- The intervals of the window and the one to the current moment, the most recent one first. -/
def intervals : List ℚ := ↑(win.now - win.newest.getSolvedAtTime) :: intervalsBetween (win.newest :: win.rest)

def difficulties : List ℚ := (win.newest :: win.rest).map KeyHeader.getDifficulty

/-- What the non-optimized mode answers for the window. -/
def answer (node : DifficultyNode) (updateLIVECoefficients : Bool) : DifficultyAnswer :=
  (getMinDIfficultyForBlock S
    { block := some (.key win.currentBlock), now := win.now, useOptimization := false, updateLIVECoefficients } node).1

/-- The key block before the most recent one, and what is left of the chain behind it. -/
def parentBlock : KeyBlock :=
  match win.rest with
  | [] => ⟨win.before, win.older⟩
  | next :: rest => ⟨next, rest ++ win.before :: win.older⟩

theorem parentBlockFor_eq : parentBlockFor win.currentBlock = .ok win.parentBlock := by
  have hgenesis : win.newest.isGenesis = false := win.noGenesis _ List.mem_cons_self
  unfold parentBlockFor parentBlock currentBlock
  cases win.rest with
  | nil => simp [hgenesis, KeyBlock.getKeyBlockForBlock]
  | cons next rest => simp [hgenesis, KeyBlock.getKeyBlockForBlock]

/-- The averages after the current moment. -/
def finalEma : EmaState :=
  let st := recomputedEma S S.getPoWDiffBaseAlpha win.currentBlock
  let timeInterval := intervalToNow S win.currentBlock win.parentBlock win.now
  { st with
    emaTimeBetweenBlocks := step S.getPoWDiffBaseAlpha st.emaTimeBetweenBlocks timeInterval
    timeInterval
    summedSMATimeDiffs := st.summedSMATimeDiffs + .ofNat timeInterval }

theorem answer_eq (node : DifficultyNode) (updateLIVECoefficients : Bool) :
    (win.answer node updateLIVECoefficients).ok = true ∧
      (win.answer node updateLIVECoefficients).difficulty = adjustedDifficulty S win.finalEma := by
  have htime : win.currentBlock.getHeader.getSolvedAtTime ≠ 0 := (win.timed win.newest List.mem_cons_self).ne'
  have hnow : win.now ≠ 0 := Nat.ne_zero_of_lt win.beforeNow
  have hstep : accountForNow S S.getPoWDiffBaseAlpha win.currentBlock win.parentBlock win.now
      (recomputedEma S S.getPoWDiffBaseAlpha win.currentBlock) = some win.finalEma := if_neg htime
  simp only [answer, getMinDIfficultyForBlock, currentBlockFor, win.parentBlockFor_eq, Bool.false_and, ne_eq,
    not_true_eq_false, if_false, Bool.false_eq_true, hnow, hstep]
  exact difficultyAnswer_fst _ _ _

/-- The time series of the window. -/
theorem timeSeries_eq : timeSeries S win.currentBlock = (win.newest :: win.rest).map KeyHeader.sample := by
  have hsize : S.getKeyBlockDiffWindowSize - 1 = win.rest.length + 1 := by
    have := win.size
    omega
  rw [timeSeries, if_pos (by have := win.size; omega), hsize]
  exact sampleLoop_plain win.plain (List.cons_ne_nil _ _)

/-- The interval to the current moment, unless the window follows right upon a hard-fork block. -/
theorem intervalToNow_eq (hparent : win.parentBlock.getHeader.isHardForkBlock = false) :
    intervalToNow S win.currentBlock win.parentBlock win.now = win.now - win.newest.getSolvedAtTime := by
  have hafter : ¬win.now < win.newest.getSolvedAtTime := Nat.not_lt.mpr win.beforeNow.le
  simp [intervalToNow, currentBlock, hparent, hafter]

/-- The averages over a window of at least two blocks. -/
theorem recomputedEma_eq (hrest : win.rest ≠ []) (hregular : Regular (win.newest :: win.rest)) :
    (recomputedEma S S.getPoWDiffBaseAlpha win.currentBlock).emaTimeBetweenBlocks =
        run S.getPoWDiffBaseAlpha S.getTargetedBlockInterval (intervalsBetween (win.newest :: win.rest)) ∧
      (recomputedEma S S.getPoWDiffBaseAlpha win.currentBlock).emaDifficulty =
        run S.getPoWDiffBaseAlpha 0
          ((win.newest :: win.rest).dropLast.map fun header => (toUInt64 header.getDifficulty : ℚ)) := by
  have hloop : recomputedEma S S.getPoWDiffBaseAlpha win.currentBlock =
      emaLoop S S.getPoWDiffBaseAlpha (initialEma S) ((win.newest :: win.rest).map KeyHeader.sample) := by
    obtain ⟨next, rest, hcons⟩ := List.exists_cons_of_ne_nil hrest
    rw [recomputedEma, win.timeSeries_eq, hcons]
    rfl
  rw [hloop]
  constructor
  · exact emaLoop_intervals _ hregular _
  · rw [emaLoop_difficulty, ← List.map_dropLast, List.map_map]
    rfl

/-- **What is averaged**: value `i` of the difficulties and intervals, counted from the most recent one, has the weight
that the average gives to the value taken in `i`-th; the current moment is taken in after all of them, the oldest block
not at all. -/
theorem difficulty_eq (hrest : win.rest ≠ []) (hregular : Regular (win.newest :: win.rest)) (node : DifficultyNode)
    (updateLIVECoefficients : Bool) :
    (win.answer node updateLIVECoefficients).difficulty =
      max (weighted (weight S.getPoWDiffBaseAlpha win.rest.length)
          ((win.newest :: win.rest).dropLast.map fun header => (toUInt64 header.getDifficulty : ℚ)) *
        (S.getTargetedBlockInterval / step S.getPoWDiffBaseAlpha
          (run S.getPoWDiffBaseAlpha S.getTargetedBlockInterval (intervalsBetween (win.newest :: win.rest)))
          ↑(win.now - win.newest.getSolvedAtTime)))
        S.getHardForkDifficulty := by
  obtain ⟨htime, hdifficulty⟩ := win.recomputedEma_eq hrest hregular
  have hparent : win.parentBlock.getHeader.isHardForkBlock = false := by
    obtain ⟨next, rest, hcons⟩ := List.exists_cons_of_ne_nil hrest
    have hplain := win.plain next (by simp [hcons])
    unfold parentBlock
    rw [hcons]
    exact hplain
  have hstart : 0 ≤ run S.getPoWDiffBaseAlpha S.getTargetedBlockInterval (intervalsBetween (win.newest :: win.rest)) :=
    run_nonneg S.alpha_pos S.alpha_lt_one (Nat.cast_nonneg _) (intervalsBetween_nonneg _)
  have hfinal : 0 < win.finalEma.emaTimeBetweenBlocks := by
    have hinterval : 0 < intervalToNow S win.currentBlock win.parentBlock win.now := by
      rw [win.intervalToNow_eq hparent]
      exact Nat.sub_pos_of_lt win.beforeNow
    simp only [finalEma, htime]
    exact step_pos_of_value S.alpha_pos S.alpha_lt_one hstart (Nat.cast_pos.mpr hinterval)
  have hlength : ((win.newest :: win.rest).dropLast.map fun header => (toUInt64 header.getDifficulty : ℚ)).length =
      win.rest.length := by simp
  rw [(win.answer_eq node updateLIVECoefficients).2, adjustedDifficulty_of_pos hfinal]
  simp only [finalEma, htime, hdifficulty, win.intervalToNow_eq hparent]
  rw [run_eq_sum, hlength, zero_mul, zero_add]

end KeyWindow

/-! ### Recency -/

/-- Weights of `n` values, the most recent one first: none is negative, and a newer value never weighs less. -/
structure Recency (n : ℕ) (weights : ℕ → ℚ) : Prop where
  nonneg : ∀ i < n, 0 ≤ weights i
  newerFirst : ∀ i j, i ≤ j → j < n → weights j ≤ weights i

/-- The difficulty of every window is set off from weighted means: `w` weighs the difficulties, `v` the targeted
interval, and `u` the intervals of the window and the one to the current moment. -/
def RecencyWeighted (S : DifficultySettings) (kind : WindowKind) : Prop :=
  ∃ (w u : ℕ → ℚ) (v : ℚ), Recency (S.getKeyBlockDiffWindowSize - 1) w ∧ Recency (S.getKeyBlockDiffWindowSize - 1) u ∧
    0 ≤ v ∧ ∑ i ∈ Finset.range (S.getKeyBlockDiffWindowSize - 1), w i = 1 ∧
    v + ∑ i ∈ Finset.range (S.getKeyBlockDiffWindowSize - 1), u i = 1 ∧
    ∀ (win : KeyWindow S kind) (node : DifficultyNode) (updateLIVECoefficients : Bool),
      (win.answer node updateLIVECoefficients).ok = true ∧
        (win.answer node updateLIVECoefficients).difficulty =
          max S.getHardForkDifficulty (weighted w win.difficulties * S.getTargetedBlockInterval /
            (v * S.getTargetedBlockInterval + weighted u win.intervals))

/-! ### Steady chains -/

/-- Key blocks of one difficulty, solved exactly at the targeted interval. -/
def steady (S : DifficultySettings) (difficulty : ℚ) : ℕ → List KeyHeader
  | 0 => []
  | n + 1 => { getSolvedAtTime := S.getTargetedBlockInterval * (n + 1), getDifficulty := difficulty } ::
      steady S difficulty n

section Steady

variable (S) (difficulty : ℚ)

theorem steady_length (n : ℕ) : (steady S difficulty n).length = n := by
  induction n with
  | zero => rfl
  | succ n ih => simp [steady, ih]

theorem mem_steady {n : ℕ} {header : KeyHeader} (hmem : header ∈ steady S difficulty n) :
    ∃ i < n, header =
      { getSolvedAtTime := S.getTargetedBlockInterval * (i + 1), getDifficulty := difficulty } := by
  induction n with
  | zero => exact absurd hmem List.not_mem_nil
  | succ n ih =>
      rcases List.mem_cons.mp hmem with rfl | hmem
      · exact ⟨n, Nat.lt_succ_self n, rfl⟩
      · obtain ⟨i, hi, rfl⟩ := ih hmem
        exact ⟨i, Nat.lt_succ_of_lt hi, rfl⟩

theorem steady_pairwise (n : ℕ) :
    (steady S difficulty n).Pairwise fun newer older => older.getSolvedAtTime < newer.getSolvedAtTime := by
  induction n with
  | zero => exact List.Pairwise.nil
  | succ n ih =>
      apply List.Pairwise.cons _ ih
      intro header hmem
      obtain ⟨i, hi, rfl⟩ := mem_steady S difficulty hmem
      exact Nat.mul_lt_mul_of_pos_left (by omega) S.target_pos

theorem intervalsBetween_steady (n : ℕ) :
    intervalsBetween (steady S difficulty (n + 1)) = List.replicate n (S.getTargetedBlockInterval : ℚ) := by
  induction n with
  | zero => rfl
  | succ n ih =>
      rw [List.replicate_succ, ← ih]
      have hinterval : S.getTargetedBlockInterval * (n + 1 + 1) - S.getTargetedBlockInterval * (n + 1) =
          S.getTargetedBlockInterval := by
        rw [← Nat.mul_sub, Nat.add_sub_cancel_left, Nat.mul_one]
      simp [steady, intervalsBetween, hinterval]

theorem map_steady {β : Type} (f : ℚ → β) (n : ℕ) :
    (steady S difficulty n).map (fun header => f header.getDifficulty) = List.replicate n (f difficulty) := by
  induction n with
  | zero => rfl
  | succ n ih => simp [steady, ih, List.replicate_succ]

variable (kind : WindowKind)

/-- A steady chain as a window, with the current moment so many targeted intervals after it. -/
def steadyWindow (n gap : ℕ) (hsize : n + 2 = S.getKeyBlockDiffWindowSize)
    (hdifficulty : 0 < difficulty) (hgap : 0 < gap)
    (hwhole : kind.fractional = false → (toUInt64 difficulty : ℚ) = difficulty) (forked : Bool)
    (hforked : kind.afterFork = false → forked = false) : KeyWindow S kind where
  newest := { getSolvedAtTime := S.getTargetedBlockInterval * (n + 1), getDifficulty := difficulty }
  rest := steady S difficulty n
  before := { getSolvedAtTime := 0, getDifficulty := difficulty, isHardForkBlock := forked }
  older := []
  now := S.getTargetedBlockInterval * (n + 1) + gap * S.getTargetedBlockInterval
  size := by rw [steady_length, hsize]
  plain := by
    intro header hmem
    obtain ⟨i, -, rfl⟩ := mem_steady S difficulty (n := n + 1) hmem
    rfl
  noGenesis := by
    intro header hmem
    obtain ⟨i, -, rfl⟩ := mem_steady S difficulty (n := n + 1) hmem
    rfl
  timed := by
    intro header hmem
    obtain ⟨i, -, rfl⟩ := mem_steady S difficulty (n := n + 1) hmem
    exact Nat.mul_pos S.target_pos (Nat.succ_pos i)
  difficult := by
    intro header hmem
    obtain ⟨i, -, rfl⟩ := mem_steady S difficulty (n := n + 1) hmem
    exact hdifficulty
  increasing := steady_pairwise S difficulty (n + 1)
  beforeNow := Nat.lt_add_of_pos_right (Nat.mul_pos hgap S.target_pos)
  whole := by
    intro hkind header hmem
    obtain ⟨i, -, rfl⟩ := mem_steady S difficulty (n := n + 1) hmem
    exact hwhole hkind
  unforked := hforked

end Steady

/-! ### Exactly which windows are averaged by recency -/

/-- A window of one block: its difficulty counts as it is stored, and the interval to the current moment is averaged
with the targeted one. -/
theorem KeyWindow.difficulty_of_single {kind : WindowKind} (win : KeyWindow S kind) (hrest : win.rest = [])
    (node : DifficultyNode) (updateLIVECoefficients : Bool) :
    (win.answer node updateLIVECoefficients).difficulty =
      max (toUInt64 win.newest.getDifficulty * (S.getTargetedBlockInterval /
        step S.getPoWDiffBaseAlpha S.getTargetedBlockInterval
          (intervalToNow S win.currentBlock win.parentBlock win.now))) S.getHardForkDifficulty := by
  have hseries : recomputedEma S S.getPoWDiffBaseAlpha win.currentBlock =
      { initialEma S with emaDifficulty := (toUInt64 win.newest.getDifficulty : ℚ) } := by
    rw [recomputedEma, win.timeSeries_eq, hrest]
    rfl
  have hpos : 0 < win.finalEma.emaTimeBetweenBlocks := by
    simp only [finalEma, hseries]
    exact step_pos S.alpha_pos S.alpha_lt_one S.target_cast_pos (Nat.cast_nonneg _)
  rw [(win.answer_eq node updateLIVECoefficients).2, adjustedDifficulty_of_pos hpos]
  simp only [finalEma, hseries]
  rfl

/-- A steady chain of at least two blocks in the window: part of its difficulty is lost. -/
theorem KeyWindow.difficulty_of_steady {kind : WindowKind} (win : KeyWindow S kind) {n k : ℕ} (hk : 0 < k)
    (hsteady : win.newest :: win.rest = steady S k (n + 1 + 1))
    (hnow : win.now - win.newest.getSolvedAtTime = S.getTargetedBlockInterval) (node : DifficultyNode)
    (updateLIVECoefficients : Bool) :
    (win.answer node updateLIVECoefficients).difficulty =
      max ((1 - (1 - S.getPoWDiffBaseAlpha) ^ (n + 1)) * k) S.getHardForkDifficulty := by
  have hregular : Regular (steady S k (n + 1 + 1)) := by
    refine ⟨?_, ?_, steady_pairwise S k _⟩
    · intro header hmem
      obtain ⟨i, -, rfl⟩ := mem_steady S k hmem
      exact Nat.mul_pos S.target_pos (Nat.succ_pos i)
    · intro header hmem
      obtain ⟨i, -, rfl⟩ := mem_steady S k hmem
      simpa [toUInt64_natCast] using hk
  have hdifficulties : ((steady S k (n + 1 + 1)).dropLast.map fun header => (toUInt64 header.getDifficulty : ℚ)) =
      List.replicate (n + 1) (k : ℚ) := by
    rw [List.map_dropLast, map_steady S k fun d => (toUInt64 d : ℚ), List.dropLast_replicate, toUInt64_natCast]
    rfl
  have htarget : step S.getPoWDiffBaseAlpha
      (run S.getPoWDiffBaseAlpha S.getTargetedBlockInterval (List.replicate (n + 1) (S.getTargetedBlockInterval : ℚ)))
      S.getTargetedBlockInterval = S.getTargetedBlockInterval := by
    rw [run_replicate, step]
    ring
  have hlength : win.rest.length = n + 1 := by simpa [steady_length] using congrArg List.length hsteady
  have hrest : win.rest ≠ [] := List.ne_nil_of_length_pos (by omega)
  rw [win.difficulty_eq hrest (hsteady ▸ hregular), hsteady, hnow, hlength, hdifficulties, intervalsBetween_steady,
    htarget, weighted_replicate, sum_weight, div_self S.target_cast_pos.ne', mul_one]

variable {kind : WindowKind}

/-- Two or more blocks: of a steady chain more difficult than the floor, something is missing. -/
theorem not_recencyWeighted_of_long (hlong : 3 ≤ S.getKeyBlockDiffWindowSize) : ¬RecencyWeighted S kind := by
  rintro ⟨w, u, v, -, -, -, hw, hu, hall⟩
  obtain ⟨n, hsize⟩ : ∃ n, n + 1 + 2 = S.getKeyBlockDiffWindowSize := ⟨S.getKeyBlockDiffWindowSize - 3, by omega⟩
  have hcount : S.getKeyBlockDiffWindowSize - 1 = n + 1 + 1 := by omega
  rw [hcount] at hw hu
  obtain ⟨k, hk⟩ := exists_nat_gt (max S.getHardForkDifficulty 0)
  obtain ⟨hfloor, hkpos⟩ := max_lt_iff.mp hk
  let win : KeyWindow S kind := steadyWindow S k kind (n + 1) 1 hsize hkpos Nat.one_pos
    (fun _ => by rw [toUInt64_natCast]) false fun _ => rfl
  have hdifficulties : win.difficulties = List.replicate (n + 1 + 1) (k : ℚ) := map_steady S k id (n + 1 + 1)
  have hgap : win.now - win.newest.getSolvedAtTime = S.getTargetedBlockInterval := by
    show S.getTargetedBlockInterval * (n + 1 + 1) + 1 * S.getTargetedBlockInterval -
      S.getTargetedBlockInterval * (n + 1 + 1) = _
    omega
  have hintervals : win.intervals = List.replicate (n + 1 + 1) (S.getTargetedBlockInterval : ℚ) := by
    rw [KeyWindow.intervals, hgap, List.replicate_succ]
    exact congrArg _ (intervalsBetween_steady S k (n + 1))
  have hmeans := (hall win {} false).2
  rw [win.difficulty_of_steady (Nat.cast_pos.mp hkpos) rfl hgap, hdifficulties, hintervals, weighted_replicate,
    weighted_replicate, hw, one_mul, ← add_mul, hu, one_mul, mul_div_cancel_right₀ _ S.target_cast_pos.ne',
    max_eq_right hfloor.le] at hmeans
  have hlost : 0 < (1 - S.getPoWDiffBaseAlpha) ^ (n + 1) := pow_pos (by linarith [S.alpha_lt_one]) _
  have hless : (1 - (1 - S.getPoWDiffBaseAlpha) ^ (n + 1)) * k < k := by
    have := mul_pos hlost hkpos
    linarith
  exact absurd hmeans (max_lt hless hfloor).ne

/-- A window of one steady block, and how many targeted intervals after it the current moment is. -/
theorem means_of_single (forked : Bool) (hsize : 0 + 2 = S.getKeyBlockDiffWindowSize) {w u : ℕ → ℚ} {v : ℚ}
    (hw : ∑ i ∈ Finset.range (S.getKeyBlockDiffWindowSize - 1), w i = 1)
    (hu : v + ∑ i ∈ Finset.range (S.getKeyBlockDiffWindowSize - 1), u i = 1) {difficulty : ℚ} {gap : ℕ}
    (hdifficulty : 0 < difficulty) (hgap : 0 < gap)
    (hwhole : kind.fractional = false → (toUInt64 difficulty : ℚ) = difficulty)
    (hforked : kind.afterFork = false → forked = false)
    (hall : ∀ (win : KeyWindow S kind) (node : DifficultyNode) (updateLIVECoefficients : Bool),
      (win.answer node updateLIVECoefficients).ok = true ∧
        (win.answer node updateLIVECoefficients).difficulty =
          max S.getHardForkDifficulty (weighted w win.difficulties * S.getTargetedBlockInterval /
            (v * S.getTargetedBlockInterval + weighted u win.intervals))) :
    max (toUInt64 difficulty / (1 + S.getPoWDiffBaseAlpha * ((if forked then 1 else gap : ℕ) - 1)))
        S.getHardForkDifficulty =
      max S.getHardForkDifficulty (difficulty / (1 + u 0 * (gap - 1))) := by
  have hcount : S.getKeyBlockDiffWindowSize - 1 = 1 := by omega
  rw [hcount, Finset.sum_range_one] at hw hu
  let win : KeyWindow S kind := steadyWindow S difficulty kind 0 gap hsize hdifficulty hgap hwhole forked hforked
  have hnow : win.now - win.newest.getSolvedAtTime = gap * S.getTargetedBlockInterval := Nat.add_sub_cancel_left ..
  have hinterval : (intervalToNow S win.currentBlock win.parentBlock win.now : ℚ) =
      (if forked then 1 else gap : ℕ) * S.getTargetedBlockInterval := by
    cases forked with
    | false =>
        rw [win.intervalToNow_eq rfl, hnow]
        simp
    | true =>
        have hforkedParent : win.parentBlock.getHeader.isHardForkBlock = true := rfl
        simp [intervalToNow, hforkedParent]
  have hmeans := (hall win {} false).2
  have hdifficulties : win.difficulties = [difficulty] := rfl
  have hintervals : win.intervals = [((gap * S.getTargetedBlockInterval : ℕ) : ℚ)] := by
    rw [KeyWindow.intervals, hnow]
    rfl
  have htarget := S.target_cast_pos.ne'
  have hleft : ∀ counted : ℕ, (S.getTargetedBlockInterval : ℚ) / step S.getPoWDiffBaseAlpha S.getTargetedBlockInterval
      (counted * S.getTargetedBlockInterval) = 1 / (1 + S.getPoWDiffBaseAlpha * (counted - 1)) := by
    intro counted
    have hstep : step S.getPoWDiffBaseAlpha (S.getTargetedBlockInterval : ℚ) (counted * S.getTargetedBlockInterval) =
        S.getTargetedBlockInterval * (1 + S.getPoWDiffBaseAlpha * (counted - 1)) := by
      rw [step]
      ring
    rw [hstep, div_mul_eq_div_div, div_self htarget]
  have hright : v * (S.getTargetedBlockInterval : ℚ) + u 0 * (gap * S.getTargetedBlockInterval) =
      (1 + u 0 * (gap - 1)) * S.getTargetedBlockInterval := by
    rw [show v = 1 - u 0 by linarith]
    ring
  rw [win.difficulty_of_single rfl, hinterval, hleft, hdifficulties, hintervals, weighted_singleton, weighted_singleton,
    hw, one_mul, Nat.cast_mul, hright, mul_div_mul_right _ _ htarget, mul_one_div] at hmeans
  exact hmeans

/-- One block with a difficulty that is no whole number: the fraction is missing. -/
theorem not_recencyWeighted_of_fractional (hsize : S.getKeyBlockDiffWindowSize = 2) (hkind : kind.fractional = true) :
    ¬RecencyWeighted S kind := by
  rintro ⟨w, u, v, -, -, -, hw, hu, hall⟩
  obtain ⟨k, hk⟩ := exists_nat_gt (max S.getHardForkDifficulty 0)
  obtain ⟨hfloor, hkpos⟩ := max_lt_iff.mp hk
  have hstored : toUInt64 (k + 1 / 2) = k := by
    have hfloor : ((k : ℚ) + 1 / 2).floor = k := by
      change ⌊(k : ℚ) + 1 / 2⌋ = k
      rw [Int.floor_eq_iff]
      constructor
      · simp
      · push_cast
        linarith
    rw [toUInt64, hfloor, Int.toNat_natCast]
  have hhalf : (0 : ℚ) < k + 1 / 2 := by linarith
  have hmeans := means_of_single false hsize.symm hw hu hhalf Nat.one_pos
    (fun h => absurd (hkind.symm.trans h) (by decide)) (fun _ => rfl) hall
  rw [hstored] at hmeans
  simp only [Bool.false_eq_true, if_false, Nat.cast_one, sub_self, mul_zero, add_zero, div_one] at hmeans
  rw [max_eq_left hfloor.le, max_eq_right (by linarith)] at hmeans
  linarith

/-- One block right behind a hard-fork block: the current moment counts for nothing. -/
theorem not_recencyWeighted_of_afterFork (hsize : S.getKeyBlockDiffWindowSize = 2) (hkind : kind.afterFork = true) :
    ¬RecencyWeighted S kind := by
  rintro ⟨w, u, v, -, hrecency, hv, hw, hu, hall⟩
  obtain ⟨k, hk⟩ := exists_nat_gt (max (2 * S.getHardForkDifficulty) 0)
  obtain ⟨hfloor, hkpos⟩ := max_lt_iff.mp hk
  have hwhole : kind.fractional = false → (toUInt64 (k : ℚ) : ℚ) = k := fun _ => by rw [toUInt64_natCast]
  have hcount : S.getKeyBlockDiffWindowSize - 1 = 1 := by omega
  have hu₀ : 0 ≤ u 0 := hrecency.nonneg 0 (by omega)
  have hu₁ : u 0 ≤ 1 := by
    rw [hcount, Finset.sum_range_one] at hu
    linarith
  -- whatever the last interval weighs, twice the targeted one does not push the difficulty down to the floor
  have habove : ∀ x : ℚ, 0 ≤ x → x ≤ 1 → S.getHardForkDifficulty ≤ k / (1 + x) := by
    intro x hx₀ hx₁
    rw [le_div_iff₀ (by linarith)]
    nlinarith
  have hplain := means_of_single false hsize.symm hw hu hkpos Nat.two_pos hwhole (fun _ => rfl) hall
  have hforked := means_of_single true hsize.symm hw hu hkpos Nat.two_pos hwhole
    (fun h => absurd (hkind.symm.trans h) (by decide)) hall
  have hdistance : ((2 : ℕ) : ℚ) - 1 = 1 := by norm_num
  simp only [toUInt64_natCast, Bool.false_eq_true, if_false, hdistance, mul_one] at hplain
  simp only [toUInt64_natCast, if_true, Nat.cast_one, sub_self, hdistance, mul_one, mul_zero, add_zero,
    div_one] at hforked
  have hα := S.alpha_pos
  rw [max_eq_left (habove _ hα.le S.alpha_lt_one.le), max_eq_right (habove _ hu₀ hu₁)] at hplain
  rw [max_eq_left (by linarith [habove 0 le_rfl zero_le_one]), max_eq_right (habove _ hu₀ hu₁)] at hforked
  have hnothing : (k : ℚ) * (1 + S.getPoWDiffBaseAlpha) = k := by
    rw [← hforked, div_eq_iff (by linarith)] at hplain
    linarith
  have hmore := mul_pos hkpos hα
  linarith

/-- **Windows are averaged by recency only where there is nothing to average**: one key block of whole difficulty that
does not follow upon a hard-fork block. -/
theorem recencyWeighted_iff (S : DifficultySettings) (kind : WindowKind) :
    RecencyWeighted S kind ↔
      S.getKeyBlockDiffWindowSize = 2 ∧ kind.fractional = false ∧ kind.afterFork = false := by
  constructor
  · intro hmeans
    have hsize : S.getKeyBlockDiffWindowSize = 2 := by
      rcases Nat.lt_trichotomy S.getKeyBlockDiffWindowSize 2 with hsmall | heq | hlong
      · obtain ⟨w, u, v, -, -, -, hw, -⟩ := hmeans
        rw [show S.getKeyBlockDiffWindowSize - 1 = 0 by omega, Finset.sum_range_zero] at hw
        exact absurd hw zero_ne_one
      · exact heq
      · exact absurd hmeans (not_recencyWeighted_of_long hlong)
    refine ⟨hsize, ?_, ?_⟩
    · exact Bool.eq_false_iff.mpr fun hkind => not_recencyWeighted_of_fractional hsize hkind hmeans
    · exact Bool.eq_false_iff.mpr fun hkind => not_recencyWeighted_of_afterFork hsize hkind hmeans
  · rintro ⟨hsize, hwhole, hfork⟩
    rw [RecencyWeighted, hsize]
    have hcomplement : 0 ≤ 1 - S.getPoWDiffBaseAlpha := by linarith [S.alpha_lt_one]
    refine ⟨fun _ => 1, fun _ => S.getPoWDiffBaseAlpha, 1 - S.getPoWDiffBaseAlpha,
      ⟨fun _ _ => zero_le_one, fun _ _ _ _ => le_rfl⟩, ⟨fun _ _ => S.alpha_pos.le, fun _ _ _ _ => le_rfl⟩, hcomplement, by simp, by simp, ?_⟩
    intro win node updateLIVECoefficients
    have hrest : win.rest = [] := List.eq_nil_of_length_eq_zero (by have := win.size; omega)
    refine ⟨(win.answer_eq node updateLIVECoefficients).1, ?_⟩
    have hparent : win.parentBlock.getHeader.isHardForkBlock = false := by
      unfold KeyWindow.parentBlock
      rw [hrest]
      exact win.unforked hfork
    have hdifficulties : win.difficulties = [win.newest.getDifficulty] := by rw [KeyWindow.difficulties, hrest]; rfl
    have hintervals : win.intervals = [((win.now - win.newest.getSolvedAtTime : ℕ) : ℚ)] := by
      rw [KeyWindow.intervals, hrest]
      rfl
    rw [win.difficulty_of_single hrest, win.intervalToNow_eq hparent, win.whole hwhole _ List.mem_cons_self,
      hdifficulties, hintervals, weighted_singleton, weighted_singleton, max_comm, one_mul, step, mul_div_assoc]
    congr 3
    ring

/-- Two blocks of difficulty 8, solved at the seconds 600 and 1200, seen at second 1800. -/
def eightTwice : KeyWindow threeSlots ⟨false, false⟩ :=
  steadyWindow threeSlots (8 : ℕ) ⟨false, false⟩ 1 1 rfl (by norm_num) Nat.one_pos
    (fun _ => by rw [toUInt64_natCast]) false fun _ => rfl

/-- The steady chain does not keep its difficulty of 8, which every weighted mean is. -/
theorem eightTwice_halved : (eightTwice.answer {} false).difficulty = 4 ∧
    ¬∃ (w u : ℕ → ℚ) (v : ℚ), w 0 + w 1 = 1 ∧ v + (u 0 + u 1) = 1 ∧
      (eightTwice.answer {} false).difficulty =
        max 1 (weighted w eightTwice.difficulties * 600 / (v * 600 + weighted u eightTwice.intervals)) := by
  have hanswer : (eightTwice.answer {} false).difficulty = 4 := by
    rw [eightTwice.difficulty_of_steady (n := 0) (k := 8) (by decide) rfl (by decide)]
    norm_num [threeSlots]
  refine ⟨hanswer, ?_⟩
  rintro ⟨w, u, v, hw, hu, hmean⟩
  have hdifficulties : eightTwice.difficulties = List.replicate 2 8 := by
    rw [KeyWindow.difficulties]
    norm_num [eightTwice, steadyWindow, steady]
    rfl
  have hintervals : eightTwice.intervals = List.replicate 2 600 := by
    norm_num [KeyWindow.intervals, eightTwice, steadyWindow, steady, intervalsBetween, threeSlots]
    rfl
  rw [hanswer, hdifficulties, hintervals, weighted_replicate, weighted_replicate, Finset.sum_range_succ,
    Finset.sum_range_one, Finset.sum_range_succ, Finset.sum_range_one, hw, one_mul, ← add_mul, hu] at hmean
  norm_num at hmean

end Gridnet
