import Gridnet.MovingAverage

/-! The minimum difficulty of the next key block. `getMinDIfficultyForBlock` averages the difficulties of the key blocks
in a window and the intervals between them, takes in the current moment, and sets the difficulty off against the
targeted interval. The optimized mode starts with two cached averages. Arithmetic is exact here. -/

namespace Gridnet

/-- The security settings that are asked for; the smoothing factor is one of an exponential moving average. -/
structure DifficultySettings where
  getKeyBlockDiffWindowSize : ℕ
  getTargetedBlockInterval : ℕ
  getPoWDiffBaseAlpha : ℚ
  getHardForkDifficulty : ℚ
  getPenaltyFactorForBlocksIntoTheFuture : ℚ
  target_pos : 0 < getTargetedBlockInterval
  alpha_pos : 0 < getPoWDiffBaseAlpha
  alpha_lt_one : getPoWDiffBaseAlpha < 1

def DEFAULT_DIFFICULTY : ℚ := 1

def PROHIBITIVE_DIFFICULTY : ℚ := 2 ^ 64 - 1

/-- A number as it is stored in a `uint64_t`. -/
def toUInt64 (d : ℚ) : ℕ := d.floor.toNat

/-- What is asked of the header of a key block. -/
structure KeyHeader where
  getSolvedAtTime : ℕ
  getDifficulty : ℚ
  isHardForkBlock : Bool := false
  isGenesis : Bool := false

/-- A key block with the key blocks before it, the nearest one first. -/
structure KeyBlock where
  getHeader : KeyHeader
  ancestors : List KeyHeader := []

/-- `getKeyBlockForBlock` of a key block: `none` at the end of the chain. -/
def KeyBlock.getKeyBlockForBlock : KeyBlock → Option KeyBlock
  | ⟨_, []⟩ => none
  | ⟨_, getHeader :: ancestors⟩ => some { getHeader, ancestors }

/-- A block that is handed in, a data block with the key block found for it. -/
inductive AnyBlock where
  | key (block : KeyBlock)
  | data (keyBlock : Option KeyBlock)

/-- The key leaders, and what is cached for the optimized mode and for reports. -/
structure DifficultyNode where
  leader : Option KeyBlock := none
  cachedLeader : Option KeyBlock := none
  emaTimeBetweenBlocks : ℚ := 0
  emaDifficultyCoefficient : ℚ := 0
  averageSMAKeyBlockInterval : UInt64 := 0

/-- `getEMATimeBetweenBlocks` and `getEMADifficultyCoefficient` of the settings. -/
def storedCoefficient (stored : ℚ) : ℚ := if stored ≤ 0 then 0 else stored

/-- The answer; the averages are reported only once they are computed. -/
structure DifficultyAnswer where
  ok : Bool
  difficulty : ℚ
  reported : Option (ℕ × UInt64) := none

/-- An element of `timeSeries`. -/
structure DifficultySample where
  timestamp : ℕ
  difficulty : ℕ
  isHardForkBlock : Bool
  deriving DecidableEq

/-- The local variables of the averages. -/
structure EmaState where
  emaTimeBetweenBlocks : ℚ
  emaDifficulty : ℚ
  timeInterval : ℕ := 0
  summedSMATimeDiffs : UInt64 := 0
  sampledKeyBlocks : UInt64 := 0

def DifficultyNode.store (node : DifficultyNode) (st : EmaState) : DifficultyNode :=
  { node with
    emaTimeBetweenBlocks := st.emaTimeBetweenBlocks
    emaDifficultyCoefficient := st.emaDifficulty }

/-! ### Pre-flight -/

/-- The key block that the difficulty is relative to, or the early answer. -/
def currentBlockFor (node : DifficultyNode) (useOptimization : Bool) :
    Option AnyBlock → Except DifficultyAnswer KeyBlock
  | some (.key block) => .ok block
  | some (.data (some keyBlock)) => .ok keyBlock
  | some (.data none) => .error { ok := false, difficulty := PROHIBITIVE_DIFFICULTY }
  | none =>
      if useOptimization then
        match node.cachedLeader with
        | none => .error { ok := false, difficulty := PROHIBITIVE_DIFFICULTY }
        | some block => .ok block
      else
        match node.leader with
        | none => .error { ok := true, difficulty := DEFAULT_DIFFICULTY }
        | some block => .ok block

def parentBlockFor (currentBlock : KeyBlock) : Except DifficultyAnswer KeyBlock :=
  if currentBlock.getHeader.isGenesis then .error { ok := true, difficulty := DEFAULT_DIFFICULTY }
  else
    match currentBlock.getKeyBlockForBlock with
    | none => .error { ok := false, difficulty := PROHIBITIVE_DIFFICULTY }
    | some parentBlock => .ok parentBlock

section Averages

variable (S : DifficultySettings) (alpha : ℚ)

/-! ### The time series -/

/-- The loop over `iterator`; the end of the chain leaves a placeholder. -/
def sampleLoop : ℕ → KeyBlock → List DifficultySample
  | 0, _ => []
  | n + 1, iterator =>
      let header := iterator.getHeader
      if header.isHardForkBlock then [⟨header.getSolvedAtTime, toUInt64 S.getHardForkDifficulty, true⟩]
      else
        ⟨header.getSolvedAtTime, toUInt64 header.getDifficulty, false⟩ ::
          match iterator.getKeyBlockForBlock with
          | none => [⟨0, 0, false⟩]
          | some temp => sampleLoop n temp

/-- `timeSeries`, the most recent block first. -/
def timeSeries (currentBlock : KeyBlock) : List DifficultySample :=
  if 2 ≤ S.getKeyBlockDiffWindowSize then sampleLoop S (S.getKeyBlockDiffWindowSize - 1) currentBlock else []

/-! ### The averages -/

/-- The interval taken for a block that is not after its parent. -/
def penaltyInterval : ℕ := toUInt64 (S.getTargetedBlockInterval / S.getPenaltyFactorForBlocksIntoTheFuture)

/-- A turn of the loop over the time series. What a parent without time or difficulty sets `timeInterval` to is
overwritten at once. -/
def emaStep (st : EmaState) (current parent : DifficultySample) : EmaState :=
  let emaTimeBetweenBlocks :=
    if parent.timestamp = 0 ∨ parent.difficulty = 0 then (S.getTargetedBlockInterval : ℚ) else st.emaTimeBetweenBlocks
  let timeInterval :=
    if current.timestamp ≤ parent.timestamp then penaltyInterval S else current.timestamp - parent.timestamp
  let timeInterval := if parent.isHardForkBlock then S.getTargetedBlockInterval else timeInterval
  { emaTimeBetweenBlocks := MovingAverage.step alpha emaTimeBetweenBlocks timeInterval
    emaDifficulty := MovingAverage.step alpha st.emaDifficulty current.difficulty
    timeInterval
    summedSMATimeDiffs := st.summedSMATimeDiffs + .ofNat timeInterval
    sampledKeyBlocks := st.sampledKeyBlocks + 1 }

/-- The loop, which goes from the most recent block back in time. -/
def emaLoop : EmaState → List DifficultySample → EmaState
  | st, current :: parent :: older => emaLoop (emaStep S alpha st current parent) (parent :: older)
  | st, _ => st

/-- The averages before the loop: `parentDifficulty` is still zero when it is copied. -/
def initialEma : EmaState := { emaTimeBetweenBlocks := S.getTargetedBlockInterval, emaDifficulty := 0 }

/-- The averages of the non-optimized mode. -/
def recomputedEma (currentBlock : KeyBlock) : EmaState :=
  match timeSeries S currentBlock with
  | [only] => { initialEma S with emaDifficulty := only.difficulty }
  | series => emaLoop S alpha (initialEma S) series

/-- The averages of the optimized mode; zero stands for a missing one. -/
def cachedEma (node : DifficultyNode) : EmaState :=
  let emaTimeBetweenBlocks := storedCoefficient node.emaTimeBetweenBlocks
  let emaDifficulty := storedCoefficient node.emaDifficultyCoefficient
  if emaTimeBetweenBlocks = 0 ∨ emaDifficulty = 0 then
    { emaTimeBetweenBlocks := S.getTargetedBlockInterval, emaDifficulty := DEFAULT_DIFFICULTY }
  else { emaTimeBetweenBlocks, emaDifficulty }

/-- The interval to the current moment. -/
def intervalToNow (currentBlock parentBlock : KeyBlock) (now : ℕ) : ℕ :=
  let parentBlockTime := currentBlock.getHeader.getSolvedAtTime
  let timeInterval := if now < parentBlockTime then penaltyInterval S else now - parentBlockTime
  if parentBlock.getHeader.isHardForkBlock then S.getTargetedBlockInterval else timeInterval

/-- The current moment is taken into the average of the intervals; `none` for a block without time. -/
def accountForNow (currentBlock parentBlock : KeyBlock) (now : ℕ) (st : EmaState) : Option EmaState :=
  if currentBlock.getHeader.getSolvedAtTime = 0 then none
  else
    let timeInterval := intervalToNow S currentBlock parentBlock now
    some { st with
      emaTimeBetweenBlocks := MovingAverage.step alpha st.emaTimeBetweenBlocks timeInterval
      timeInterval
      summedSMATimeDiffs := st.summedSMATimeDiffs + .ofNat timeInterval }

/-! ### The answer -/

/-- The difficulty that the averages call for. -/
def adjustedDifficulty (st : EmaState) : ℚ :=
  if st.emaTimeBetweenBlocks ≠ 0 then
    max (st.emaDifficulty * (S.getTargetedBlockInterval / st.emaTimeBetweenBlocks)) S.getHardForkDifficulty
  else PROHIBITIVE_DIFFICULTY

/-- The simple average of the intervals, for reports, and the node that keeps it. -/
def reportSMA (useOptimization : Bool) (st : EmaState) (node : DifficultyNode) : UInt64 × DifficultyNode :=
  if useOptimization then ((node.averageSMAKeyBlockInterval + .ofNat st.timeInterval) / 2, node)
  else if st.sampledKeyBlocks = 0 then (0, node)
  else
    let avrSMATimeBetweenBlocks := st.summedSMATimeDiffs / (st.sampledKeyBlocks + 1)
    (avrSMATimeBetweenBlocks, { node with averageSMAKeyBlockInterval := avrSMATimeBetweenBlocks })

/-- The adjustment and the reports; `ok` is set in any case. -/
def difficultyAnswer (useOptimization : Bool) (st : EmaState) (node : DifficultyNode) :
    DifficultyAnswer × DifficultyNode :=
  let (avrSMATimeBetweenBlocks, node) := reportSMA useOptimization st node
  ({ ok := true
     difficulty := adjustedDifficulty S st
     reported := some (toUInt64 st.emaTimeBetweenBlocks, avrSMATimeBetweenBlocks) }, node)

end Averages

/-- The arguments of a call; a forced coefficient of zero is none. -/
structure DifficultyCall where
  block : Option AnyBlock := none
  now : ℕ := 0
  useOptimization : Bool
  updateLIVECoefficients : Bool := false
  forcedAlpha : ℚ := 0
  forcedStepFactor : ℚ := 0

def getMinDIfficultyForBlock (S : DifficultySettings) (call : DifficultyCall) (node : DifficultyNode) :
    DifficultyAnswer × DifficultyNode :=
  let useOptimization := call.useOptimization && call.forcedAlpha = 0 && call.forcedStepFactor = 0
  let alpha := if call.forcedAlpha ≠ 0 then call.forcedAlpha else S.getPoWDiffBaseAlpha
  match currentBlockFor node useOptimization call.block with
  | .error answer => (answer, node)
  | .ok currentBlock =>
      match parentBlockFor currentBlock with
      | .error answer => (answer, node)
      | .ok parentBlock =>
          let st := if useOptimization then cachedEma S node else recomputedEma S alpha currentBlock
          if call.now = 0 then
            difficultyAnswer S useOptimization st
              (if useOptimization = false ∧ call.updateLIVECoefficients = true then node.store st else node)
          else
            match accountForNow S alpha currentBlock parentBlock call.now st with
            | none => ({ ok := false, difficulty := PROHIBITIVE_DIFFICULTY }, node)
            | some st =>
                difficultyAnswer S useOptimization st
                  (if call.updateLIVECoefficients then node.store st else node)

/-! ### What the averages and the answer depend on -/

section Lemmas

variable {S : DifficultySettings}

theorem toUInt64_natCast (n : ℕ) : toUInt64 n = n := by
  have hfloor : (n : ℚ).floor = n := by simpa using Rat.floor_intCast (n : ℤ)
  rw [toUInt64, hfloor, Int.toNat_natCast]

theorem difficultyAnswer_fst (useOptimization : Bool) (st : EmaState) (node : DifficultyNode) :
    (difficultyAnswer S useOptimization st node).1.ok = true ∧
      (difficultyAnswer S useOptimization st node).1.difficulty = adjustedDifficulty S st := ⟨rfl, rfl⟩

theorem adjustedDifficulty_of_pos {st : EmaState} (hpos : 0 < st.emaTimeBetweenBlocks) :
    adjustedDifficulty S st =
      max (st.emaDifficulty * (S.getTargetedBlockInterval / st.emaTimeBetweenBlocks)) S.getHardForkDifficulty :=
  if_pos hpos.ne'

theorem DifficultySettings.target_cast_pos (S : DifficultySettings) : (0 : ℚ) < S.getTargetedBlockInterval :=
  Nat.cast_pos.mpr S.target_pos

/-- The difficulties that the loop takes in: all but the last one of the series. -/
theorem emaLoop_difficulty (alpha : ℚ) (st : EmaState) (series : List DifficultySample) :
    (emaLoop S alpha st series).emaDifficulty =
      MovingAverage.run alpha st.emaDifficulty (series.dropLast.map fun sample => (sample.difficulty : ℚ)) := by
  induction series generalizing st with
  | nil => rfl
  | cons current series ih =>
      cases series with
      | nil => rfl
      | cons parent older =>
          rw [emaLoop, ih]
          rfl

end Lemmas

/-- A window of two key blocks and the current moment. -/
def threeSlots : DifficultySettings where
  getKeyBlockDiffWindowSize := 3
  getTargetedBlockInterval := 600
  getPoWDiffBaseAlpha := 1 / 2
  getHardForkDifficulty := 1
  getPenaltyFactorForBlocksIntoTheFuture := 600
  target_pos := by decide
  alpha_pos := by norm_num
  alpha_lt_one := by norm_num

end Gridnet
