import Gridnet.Bytes
import Gridnet.Machine

/-! The undo stack of a flow: the snapshots of the state trie that `CTransactionManager` keeps to step
back to, with their perspectives in a second vector, and the transaction that is reverted over it. -/

namespace Gridnet

/-- What the flow uses of `CTrieDB`, whose code is not at hand. `setPerspective` says whether the trie
of that root could be loaded; it is handed the database whose modified domains it takes over. -/
structure TrieDB (DB : Type) where
  copy : DB → DB
  getPerspective : DB → Bytes
  getAssociatedObjectID : DB → Bytes
  setAssociatedObjectID : DB → Bytes → DB
  setPerspective : DB → Bytes → DB → Bool × DB
  assign : DB → DB → DB

/-- The documented behaviour of `CTrieDB`. -/
structure TrieDB.Documented {DB : Type} (T : TrieDB DB) : Prop where
  copy_perspective : ∀ d, T.getPerspective (T.copy d) = T.getPerspective d
  setAssociatedObjectID_perspective :
    ∀ d id, T.getPerspective (T.setAssociatedObjectID d id) = T.getPerspective d
  setAssociatedObjectID_id : ∀ d id, T.getAssociatedObjectID (T.setAssociatedObjectID d id) = id
  setPerspective_perspective : ∀ d p t, (T.setPerspective d p t).1 = true →
    T.getPerspective (T.setPerspective d p t).2 = p
  assign_perspective : ∀ d t, T.getPerspective (T.assign d t) = T.getPerspective t

/-- What ends the process: a failed `assertGN`, or an access beyond the end of a vector. -/
inductive Fault where
  | assertion
  | outOfRange
  deriving DecidableEq, Repr

/-- The fields of `CTransactionManager` that the undo stack uses, within a flow; in the vectors the
oldest entry comes first. -/
structure TransactionManager (DB : Type) where
  mFlowStateDB : DB
  mInFlowInterDBs : List DB := []
  mInFlowInterPerspectives : List Bytes := []
  mInFlowTXDBStackDepth : UInt64 := 0
  mInFlowTotalTXDBStackDepth : UInt64 := 0
  mCurrentFlowObjectID : Bytes := []
  mAllowedInterFlowSteps : ℕ := 500

/-- A loop of `pushDB`: while the vector is full the entry at `i` is erased and `i` moves on. -/
def evict {α : Type} (mAllowedInterFlowSteps : ℕ) : ℕ → ℕ → List α → Except Fault (List α × ℕ)
  | 0, i, l => .ok (l, i)
  | turns + 1, i, l =>
      if mAllowedInterFlowSteps ≤ l.length then
        if i < l.length then evict mAllowedInterFlowSteps turns (i + 1) (l.eraseIdx i)
        else .error .outOfRange
      else .ok (l, i)

namespace TransactionManager

variable {DB : Type}

def incInFlowTXDBStackDepth (m : TransactionManager DB) : TransactionManager DB :=
  { m with
    mInFlowTXDBStackDepth := m.mInFlowTXDBStackDepth + 1
    mInFlowTotalTXDBStackDepth := m.mInFlowTotalTXDBStackDepth + 1 }

def decInFlowTXDBStackDepth (m : TransactionManager DB) :
    Except Fault (TransactionManager DB) :=
  if m.mInFlowTotalTXDBStackDepth = 0 then .error .assertion
  else .ok { m with
    mInFlowTXDBStackDepth :=
      if 0 < m.mInFlowTXDBStackDepth then m.mInFlowTXDBStackDepth - 1 else m.mInFlowTXDBStackDepth
    mInFlowTotalTXDBStackDepth := m.mInFlowTotalTXDBStackDepth - 1 }

def resetCurrentTXDBStackDepth (m : TransactionManager DB) : TransactionManager DB :=
  { m with mInFlowTXDBStackDepth := 0 }

/-- The object that a pushed database belongs to. -/
def pushedObjectID (m : TransactionManager DB) (isTXDB : Bool) (explicitObjectID : Bytes) : Bytes :=
  if isTXDB && explicitObjectID ≠ [] then explicitObjectID else m.mCurrentFlowObjectID

/-- `pushDB`; both loops move the same index. -/
def pushDB (T : TrieDB DB) (m : TransactionManager DB) (db : DB) (isTXDB : Bool)
    (explicitObjectID : Bytes) : Except Fault (TransactionManager DB) :=
  let db := T.setAssociatedObjectID db (m.pushedObjectID isTXDB explicitObjectID)
  match evict m.mAllowedInterFlowSteps (m.mInFlowInterDBs.length + 1) 0 m.mInFlowInterDBs with
  | .error e => .error e
  | .ok (dbs, i) =>
      match evict m.mAllowedInterFlowSteps (m.mInFlowInterPerspectives.length + 1) i
          m.mInFlowInterPerspectives with
      | .error e => .error e
      | .ok (perspectives, _) =>
          let m := { m with
            mInFlowInterPerspectives := perspectives ++ [T.getPerspective db]
            mInFlowInterDBs := dbs ++ [db] }
          .ok (if isTXDB then m.incInFlowTXDBStackDepth else m)

/-- The cleanup that `popDB` and `stepBack` repeat for every entry they remove. -/
def cleanNewest (m : TransactionManager DB) : Except Fault (TransactionManager DB) :=
  if m.mInFlowInterPerspectives = [] ∨
      m.mInFlowInterDBs.length < m.mInFlowInterPerspectives.length then .error .outOfRange
  else
    let m := { m with mInFlowInterDBs := m.mInFlowInterDBs.dropLast }
    match if 0 < m.mInFlowTXDBStackDepth then m.decInFlowTXDBStackDepth else .ok m with
    | .error e => .error e
    | .ok m => .ok { m with mInFlowInterPerspectives := m.mInFlowInterPerspectives.dropLast }

def cleanNewestN : ℕ → TransactionManager DB → Except Fault (TransactionManager DB)
  | 0, m => .ok m
  | n + 1, m =>
      match m.cleanNewest with
      | .error e => .error e
      | .ok m => cleanNewestN n m

def popDB (m : TransactionManager DB) (nrOfDBs : ℕ) :
    Except Fault (Bool × TransactionManager DB) :=
  if nrOfDBs = 0 then .ok (true, m)
  else if m.mInFlowInterPerspectives.length < nrOfDBs ∨ m.mInFlowInterDBs.length < nrOfDBs then
    .ok (false, m)
  else (cleanNewestN nrOfDBs m).map fun m => (true, m)

/-- `stepBack`: the perspective of the target is set; where cold storage does not have it, the target
itself is copied. -/
def stepBack (T : TrieDB DB) (m : TransactionManager DB) (nrOfSteps : ℕ) :
    Except Fault (Bool × TransactionManager DB) :=
  if nrOfSteps = 0 then .ok (true, m)
  else if m.mInFlowInterPerspectives.length < nrOfSteps ∨
      m.mInFlowInterDBs.length < nrOfSteps then .ok (false, m)
  else
    let targetIndex := m.mInFlowInterPerspectives.length - nrOfSteps
    match m.mInFlowInterDBs[targetIndex]?, m.mInFlowInterPerspectives[targetIndex]? with
    | some targetDB, some perspective =>
        let set := T.setPerspective m.mFlowStateDB perspective targetDB
        if set.1 then
          (cleanNewestN nrOfSteps { m with mFlowStateDB := set.2 }).map fun m => (true, m)
        else
          let copied := T.assign set.2 targetDB
          if T.getPerspective copied ≠ T.getPerspective targetDB then
            .ok (false, { m with mFlowStateDB := copied })
          else (cleanNewestN nrOfSteps { m with mFlowStateDB := copied }).map fun m => (true, m)
    | _, _ => .error .outOfRange

/-- The loop of `revertTX` and of `popCurrentTXDBs`: entries of the current object are removed while
the depth counter says that there are some. It yields the number of steps, or `none` where a step
answers `false`. -/
def unwind (T : TrieDB DB)
    (step : TransactionManager DB → Except Fault (Bool × TransactionManager DB)) :
    ℕ → ℕ → TransactionManager DB → Except Fault (Option ℕ × TransactionManager DB)
  | 0, stepsPerformed, m => .ok (some stepsPerformed, m)
  | turns + 1, stepsPerformed, m =>
      if 0 < m.mInFlowTXDBStackDepth then
        match m.mInFlowInterDBs.getLast? with
        | none => .error .assertion
        | some top =>
            if T.getAssociatedObjectID top ≠ m.mCurrentFlowObjectID then .ok (some stepsPerformed, m)
            else
              match step m with
              | .error e => .error e
              | .ok (false, m) => .ok (none, m)
              | .ok (true, m) => unwind T step turns (stepsPerformed + 1) m
      else .ok (some stepsPerformed, m)

/-- The loop and the assertions after it. -/
def unwindTX (T : TrieDB DB)
    (step : TransactionManager DB → Except Fault (Bool × TransactionManager DB))
    (m : TransactionManager DB) : Except Fault (Bool × TransactionManager DB) :=
  match unwind T step m.mInFlowTXDBStackDepth.toNat 0 m with
  | .error e => .error e
  | .ok (none, m') => .ok (false, m')
  | .ok (some stepsPerformed, m') =>
      if stepsPerformed ≠ m.mInFlowTXDBStackDepth.toNat then .error .assertion
      else if m'.mInFlowTXDBStackDepth = 0 then .ok (true, m')
      else
        match m'.mInFlowInterDBs.getLast? with
        | none => .error .outOfRange
        | some top =>
            if T.getAssociatedObjectID top = m.mCurrentFlowObjectID then .error .assertion
            else .ok (true, m')

def revertTX (T : TrieDB DB) (m : TransactionManager DB) :
    Except Fault (Bool × TransactionManager DB) :=
  m.unwindTX T fun m => m.stepBack T 1

def popCurrentTXDBs (T : TrieDB DB) (m : TransactionManager DB) :
    Except Fault (Bool × TransactionManager DB) :=
  m.unwindTX T fun m => m.popDB 1

end TransactionManager

end Gridnet
