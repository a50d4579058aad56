import Gridnet.FlowModel

/-! The undo stack is a stack as long as it is not full when something is pushed. A push that finds it
full erases the oldest database but the second oldest perspective. -/

namespace Gridnet

section Evict

variable {α : Type}

/-- There is room: nothing is erased. -/
theorem evict_of_lt {allowed : ℕ} {l : List α} (hroom : l.length < allowed) (turns i : ℕ) :
    evict allowed (turns + 1) i l = .ok (l, i) := by
  rw [evict, if_neg (Nat.not_le.mpr hroom)]

/-- One entry too many: the one at `i` is erased. -/
theorem evict_of_eq {allowed : ℕ} {l : List α} (hfull : l.length = allowed) {turns i : ℕ}
    (hi : i < l.length) : evict allowed (turns + 2) i l = .ok (l.eraseIdx i, i + 1) := by
  have hroom : (l.eraseIdx i).length < allowed := by
    rw [List.length_eraseIdx_of_lt hi]
    omega
  rw [evict, if_pos (Nat.le_of_eq hfull.symm), if_pos hi, evict_of_lt hroom]

/-- The entry to be erased is beyond the end. -/
theorem evict_outOfRange {allowed : ℕ} {l : List α} (hfull : allowed ≤ l.length) {turns i : ℕ}
    (hi : l.length ≤ i) : evict allowed (turns + 1) i l = .error .outOfRange := by
  rw [evict, if_pos hfull, if_neg (Nat.not_lt.mpr hi)]

/-- Erasing the second entry leaves what is left without the first exactly when both are equal. -/
theorem eraseIdx_one_eq_tail_iff {l : List α} (hl : 2 ≤ l.length) :
    l.eraseIdx 1 = l.tail ↔ ∃ a rest, l = a :: a :: rest := by
  match l, hl with
  | a :: b :: rest, _ =>
      simp only [List.eraseIdx_cons_succ, List.eraseIdx_cons_zero, List.tail_cons, List.cons.injEq,
        and_true]
      constructor
      · rintro rfl
        exact ⟨a, rest, rfl, rfl, rfl⟩
      · rintro ⟨c, rest', rfl, rfl, -⟩
        rfl

end Evict

namespace TransactionManager

variable {DB : Type} {T : TrieDB DB} {m : TransactionManager DB}

/-- The two vectors hold the same entries, no more than allowed, and the transaction has no more of
them than the flow. -/
structure WellFormed (T : TrieDB DB) (m : TransactionManager DB) : Prop where
  aligned : m.mInFlowInterPerspectives = m.mInFlowInterDBs.map T.getPerspective
  bounded : m.mInFlowInterDBs.length ≤ m.mAllowedInterFlowSteps
  depth : m.mInFlowTXDBStackDepth ≤ m.mInFlowTotalTXDBStackDepth

theorem WellFormed.length_eq (hm : m.WellFormed T) :
    m.mInFlowInterPerspectives.length = m.mInFlowInterDBs.length := by
  rw [hm.aligned, List.length_map]

/-- Without its `n` newest entries. -/
def removed (m : TransactionManager DB) (n : ℕ) : TransactionManager DB :=
  { m with
    mInFlowInterDBs := m.mInFlowInterDBs.take (m.mInFlowInterDBs.length - n)
    mInFlowInterPerspectives :=
      m.mInFlowInterPerspectives.take (m.mInFlowInterPerspectives.length - n)
    mInFlowTXDBStackDepth := .ofNat (m.mInFlowTXDBStackDepth.toNat - n)
    mInFlowTotalTXDBStackDepth :=
      .ofNat (m.mInFlowTotalTXDBStackDepth.toNat - min n m.mInFlowTXDBStackDepth.toNat) }

@[simp]
theorem depth_removed (n : ℕ) : (m.removed n).mInFlowTXDBStackDepth.toNat = m.mInFlowTXDBStackDepth.toNat - n :=
  UInt64.toNat_ofNat_of_lt' ((Nat.sub_le _ _).trans_lt m.mInFlowTXDBStackDepth.toNat_lt)

@[simp]
theorem total_removed (n : ℕ) : (m.removed n).mInFlowTotalTXDBStackDepth.toNat =
    m.mInFlowTotalTXDBStackDepth.toNat - min n m.mInFlowTXDBStackDepth.toNat :=
  UInt64.toNat_ofNat_of_lt' ((Nat.sub_le _ _).trans_lt m.mInFlowTotalTXDBStackDepth.toNat_lt)

theorem removed_zero : m.removed 0 = m := by
  simp [removed]

theorem removed_removed (n k : ℕ) : (m.removed n).removed k = m.removed (n + k) := by
  rw [removed, depth_removed, total_removed]
  simp only [removed, List.length_take, List.take_take, mk.injEq, true_and, and_true]
  refine ⟨?_, ?_, ?_, ?_⟩
  · congr 1
    omega
  · congr 1
    omega
  · congr 1
    omega
  · congr 1
    omega

theorem WellFormed.removed (hm : m.WellFormed T) (n : ℕ) : (m.removed n).WellFormed T where
  aligned := by
    simp only [TransactionManager.removed, hm.aligned, List.map_take, List.length_map]
  bounded := by
    have hbounded := hm.bounded
    simp only [TransactionManager.removed, List.length_take]
    omega
  depth := by
    have hdepth := UInt64.le_iff_toNat_le.mp hm.depth
    rw [UInt64.le_iff_toNat_le, depth_removed, total_removed]
    omega

theorem cleanNewest_eq (hm : m.WellFormed T) (hne : m.mInFlowInterDBs ≠ []) :
    m.cleanNewest = .ok (m.removed 1) := by
  have hlength := hm.length_eq
  have hpos := List.length_pos_iff.mpr hne
  have hperspectives : m.mInFlowInterPerspectives ≠ [] := by
    rw [← List.length_pos_iff]
    omega
  unfold cleanNewest
  rw [if_neg (not_or.mpr ⟨hperspectives, by omega⟩)]
  dsimp only
  by_cases hpositive : 0 < m.mInFlowTXDBStackDepth
  · have htotal : m.mInFlowTotalTXDBStackDepth ≠ 0 := UInt64.pos_iff_ne_zero.mp (UInt64.lt_of_lt_of_le hpositive hm.depth)
    have hone : 1 ≤ m.mInFlowTXDBStackDepth.toNat := UInt64.lt_iff_toNat_lt.mp hpositive
    have hone' : 1 ≤ m.mInFlowTotalTXDBStackDepth.toNat := hone.trans (UInt64.le_iff_toNat_le.mp hm.depth)
    rw [if_pos hpositive]
    simp only [decInFlowTXDBStackDepth, if_neg htotal, if_pos hpositive, TransactionManager.removed,
      List.dropLast_eq_take, Nat.min_eq_left hone, UInt64.ofNat_sub hone, UInt64.ofNat_sub hone', UInt64.ofNat_toNat]
    rfl
  · have hzero : m.mInFlowTXDBStackDepth.toNat = 0 :=
      Nat.eq_zero_of_not_pos fun hpos => hpositive (UInt64.lt_iff_toNat_lt.mpr hpos)
    have hnone : m.mInFlowTXDBStackDepth = 0 := UInt64.toNat_inj.mp hzero
    rw [if_neg hpositive]
    simp [TransactionManager.removed, List.dropLast_eq_take, hnone]

/-- The cleanup of as many entries as there are at most. -/
theorem cleanNewestN_eq (hm : m.WellFormed T) {n : ℕ} (hn : n ≤ m.mInFlowInterDBs.length) :
    cleanNewestN n m = .ok (m.removed n) := by
  induction n generalizing m with
  | zero => rw [cleanNewestN, removed_zero]
  | succ n ih =>
      have hne : m.mInFlowInterDBs ≠ [] := by
        rw [← List.length_pos_iff]
        omega
      have hrest : n ≤ (m.removed 1).mInFlowInterDBs.length := by
        simp only [TransactionManager.removed, List.length_take]
        omega
      rw [cleanNewestN, cleanNewest_eq hm hne]
      dsimp only
      rw [ih (hm.removed 1) hrest, removed_removed, Nat.add_comm]

theorem popDB_eq (hm : m.WellFormed T) (n : ℕ) :
    m.popDB n = if n ≤ m.mInFlowInterDBs.length then .ok (true, m.removed n) else .ok (false, m) := by
  have hlength := hm.length_eq
  unfold popDB
  by_cases hzero : n = 0
  · rw [if_pos hzero, if_pos (by omega), hzero, removed_zero]
  rw [if_neg hzero]
  by_cases hn : n ≤ m.mInFlowInterDBs.length
  · rw [if_pos hn, if_neg (by omega), cleanNewestN_eq hm hn]
    rfl
  · rw [if_neg hn, if_pos (by omega)]

/-- Stepping back sets the perspective of the entry it steps back to, in either way. -/
theorem stepBack_eq (hT : T.Documented) (hm : m.WellFormed T) {n : ℕ} (hpos : 0 < n)
    (hn : n ≤ m.mInFlowInterDBs.length) :
    ∃ state, m.stepBack T n = .ok (true, { m.removed n with mFlowStateDB := state }) ∧
      m.mInFlowInterPerspectives[m.mInFlowInterDBs.length - n]? =
        some (T.getPerspective state) := by
  have hlength := hm.length_eq
  have hindex : m.mInFlowInterDBs.length - n < m.mInFlowInterDBs.length := by omega
  obtain ⟨target, htarget⟩ : ∃ target,
      m.mInFlowInterDBs[m.mInFlowInterDBs.length - n]? = some target :=
    ⟨_, List.getElem?_eq_getElem hindex⟩
  have hperspective : m.mInFlowInterPerspectives[m.mInFlowInterDBs.length - n]? =
      some (T.getPerspective target) := by
    rw [hm.aligned, List.getElem?_map, htarget, Option.map_some]
  have hclean : ∀ state, cleanNewestN n { m with mFlowStateDB := state } =
      .ok { m.removed n with mFlowStateDB := state } := by
    intro state
    have hstate : WellFormed T { m with mFlowStateDB := state } :=
      ⟨hm.aligned, hm.bounded, hm.depth⟩
    exact cleanNewestN_eq hstate hn
  unfold stepBack
  rw [if_neg (by omega), if_neg (by omega)]
  dsimp only
  rw [hlength, htarget, hperspective]
  dsimp only
  by_cases hset : (T.setPerspective m.mFlowStateDB (T.getPerspective target) target).1 = true
  · rw [if_pos hset, hclean]
    exact ⟨_, rfl, congrArg some (hT.setPerspective_perspective _ _ _ hset).symm⟩
  · have hassign : T.getPerspective (T.assign
        (T.setPerspective m.mFlowStateDB (T.getPerspective target) target).2 target) =
          T.getPerspective target := hT.assign_perspective _ _
    rw [if_neg hset, if_neg (fun h => h hassign), hclean]
    exact ⟨_, rfl, congrArg some hassign.symm⟩

theorem stepBack_eq_false (hm : m.WellFormed T) {n : ℕ} (hn : m.mInFlowInterDBs.length < n) :
    m.stepBack T n = .ok (false, m) := by
  have hlength := hm.length_eq
  unfold stepBack
  rw [if_neg (by omega), if_pos (by omega)]

/-- The database as `pushDB` stores it. -/
def tagged (T : TrieDB DB) (m : TransactionManager DB) (db : DB) (isTXDB : Bool)
    (explicitObjectID : Bytes) : DB :=
  T.setAssociatedObjectID db (m.pushedObjectID isTXDB explicitObjectID)

/-- With a newest entry, over the entries that are kept. -/
def withNewest (T : TrieDB DB) (m : TransactionManager DB) (dbs : List DB)
    (perspectives : List Bytes) (db : DB) (isTXDB : Bool) : TransactionManager DB :=
  let m := { m with
    mInFlowInterPerspectives := perspectives ++ [T.getPerspective db]
    mInFlowInterDBs := dbs ++ [db] }
  if isTXDB then m.incInFlowTXDBStackDepth else m

theorem pushDB_of_lt (hm : m.WellFormed T)
    (hroom : m.mInFlowInterDBs.length < m.mAllowedInterFlowSteps) (db : DB) (isTXDB : Bool)
    (explicitObjectID : Bytes) :
    m.pushDB T db isTXDB explicitObjectID =
      .ok (m.withNewest T m.mInFlowInterDBs m.mInFlowInterPerspectives
        (m.tagged T db isTXDB explicitObjectID) isTXDB) := by
  have hroom' : m.mInFlowInterPerspectives.length < m.mAllowedInterFlowSteps := by
    rwa [hm.length_eq]
  unfold pushDB
  dsimp only
  rw [evict_of_lt hroom]
  dsimp only
  rw [evict_of_lt hroom']
  rfl

/-- A push on a full stack of two entries or more: the oldest database goes, and the second oldest
perspective. -/
theorem pushDB_of_eq (hm : m.WellFormed T)
    (hfull : m.mInFlowInterDBs.length = m.mAllowedInterFlowSteps)
    (htwo : 2 ≤ m.mAllowedInterFlowSteps) (db : DB) (isTXDB : Bool) (explicitObjectID : Bytes) :
    m.pushDB T db isTXDB explicitObjectID =
      .ok (m.withNewest T m.mInFlowInterDBs.tail (m.mInFlowInterPerspectives.eraseIdx 1)
        (m.tagged T db isTXDB explicitObjectID) isTXDB) := by
  have hlength := hm.length_eq
  obtain ⟨turns, hturns⟩ : ∃ turns, m.mInFlowInterDBs.length = turns + 1 :=
    ⟨m.mInFlowInterDBs.length - 1, by omega⟩
  have hturns' : m.mInFlowInterPerspectives.length + 1 = turns + 2 := by omega
  unfold pushDB
  dsimp only
  rw [hturns, hturns', evict_of_eq hfull (by omega)]
  dsimp only
  rw [evict_of_eq (by omega) (by omega), List.eraseIdx_zero]
  rfl

/-- A push on a full stack of one entry reaches beyond the end. -/
theorem pushDB_of_one (hm : m.WellFormed T) (hone : m.mAllowedInterFlowSteps = 1)
    (hfull : m.mInFlowInterDBs.length = 1) (db : DB) (isTXDB : Bool) (explicitObjectID : Bytes) :
    m.pushDB T db isTXDB explicitObjectID = .error .outOfRange := by
  have hlength := hm.length_eq
  unfold pushDB
  dsimp only
  rw [hfull, evict_of_eq (by omega) (by omega)]
  dsimp only
  rw [evict_outOfRange (by omega) (by omega)]

end TransactionManager

/-- What happens within a flow: the operations on the stack, and changes of the state, of the current
object and of the current transaction between them. -/
inductive FlowOp (DB : Type) where
  | pushDB (db : DB) (isTXDB : Bool) (explicitObjectID : Bytes)
  | popDB (nrOfDBs : ℕ)
  | stepBack (nrOfSteps : ℕ)
  | change (state : DB)
  | setCurrentFlowObjectID (id : Bytes)
  | resetCurrentTXDBStackDepth

namespace FlowOp

variable {DB : Type} (T : TrieDB DB)

/-- An operation; a fault ends the process. -/
def run (m : TransactionManager DB) : FlowOp DB → Except Fault (Bool × TransactionManager DB)
  | pushDB db isTXDB explicitObjectID =>
      (m.pushDB T db isTXDB explicitObjectID).map fun m => (true, m)
  | popDB nrOfDBs => m.popDB nrOfDBs
  | stepBack nrOfSteps => m.stepBack T nrOfSteps
  | change state => .ok (true, { m with mFlowStateDB := state })
  | setCurrentFlowObjectID id => .ok (true, { m with mCurrentFlowObjectID := id })
  | resetCurrentTXDBStackDepth => .ok (true, m.resetCurrentTXDBStackDepth)

/-- The machine of a flow. -/
def step (m : TransactionManager DB) (op : FlowOp DB) :
    Except Fault Bool × TransactionManager DB :=
  match op.run T m with
  | .error e => (.error e, m)
  | .ok (answer, m) => (.ok answer, m)

/-- What the entries are after an operation on a stack: a push adds an entry and drops the oldest one
if the stack is full; popping and stepping back remove the newest ones, if there are so many. -/
def entries (m : TransactionManager DB) : FlowOp DB → List DB
  | pushDB db isTXDB explicitObjectID =>
      (if m.mInFlowInterDBs.length < m.mAllowedInterFlowSteps then m.mInFlowInterDBs
        else m.mInFlowInterDBs.tail) ++ [m.tagged T db isTXDB explicitObjectID]
  | popDB n | stepBack n =>
      if n ≤ m.mInFlowInterDBs.length then m.mInFlowInterDBs.take (m.mInFlowInterDBs.length - n)
      else m.mInFlowInterDBs
  | _ => m.mInFlowInterDBs

/-- The perspective of the flow state after stepping back is that of the entry stepped back to. -/
def Restores (m m' : TransactionManager DB) : FlowOp DB → Prop
  | stepBack n => 0 < n → n ≤ m.mInFlowInterDBs.length →
      m.mInFlowInterPerspectives[m.mInFlowInterDBs.length - n]? =
        some (T.getPerspective m'.mFlowStateDB)
  | _ => True

/-- A removal answers whether there are so many entries. -/
def answer (m : TransactionManager DB) : FlowOp DB → Bool
  | popDB n | stepBack n => n ≤ m.mInFlowInterDBs.length
  | _ => true

/-- The operation treats the stack as a stack: there is no fault, the entries are the expected ones,
with their perspectives beside them and no more than allowed, and stepping back restores. -/
structure Soundly (m : TransactionManager DB) (op : FlowOp DB) (m' : TransactionManager DB) :
    Prop where
  run : op.run T m = .ok (op.answer m, m')
  entries : m'.mInFlowInterDBs = op.entries T m
  wellFormed : m'.WellFormed T
  allowed : m'.mAllowedInterFlowSteps = m.mAllowedInterFlowSteps
  restores : op.Restores T m m'

def Sound (m : TransactionManager DB) (op : FlowOp DB) : Prop := ∃ m', op.Soundly T m m'

/-- A push finds room, or the two oldest entries have the same perspective. -/
def Room (m : TransactionManager DB) : FlowOp DB → Prop
  | pushDB _ _ _ => m.mInFlowInterDBs.length < m.mAllowedInterFlowSteps ∨
      ∃ perspective rest, m.mInFlowInterPerspectives = perspective :: perspective :: rest
  | _ => True

variable {T} {m : TransactionManager DB}

/-- A counter that is not at its end. -/
theorem toNat_add_one {n : UInt64} (hroom : n.toNat + 1 < 2 ^ 64) : (n + 1).toNat = n.toNat + 1 := by
  rw [UInt64.toNat_add, UInt64.toNat_one, Nat.mod_eq_of_lt hroom]

/-- A push over kept entries, with their perspectives beside them. -/
theorem withNewest_wellFormed (hm : m.WellFormed T) (hcount : m.mInFlowTotalTXDBStackDepth.toNat + 1 < 2 ^ 64)
    {dbs : List DB} {db : DB} (hlength : dbs.length < m.mAllowedInterFlowSteps) (isTXDB : Bool) :
    (m.withNewest T dbs (dbs.map T.getPerspective) db isTXDB).WellFormed T := by
  have hdepth := UInt64.le_iff_toNat_le.mp hm.depth
  constructor
  · cases isTXDB <;>
      simp [TransactionManager.withNewest, TransactionManager.incInFlowTXDBStackDepth]
  · cases isTXDB <;>
      simpa [TransactionManager.withNewest, TransactionManager.incInFlowTXDBStackDepth] using hlength
  · cases isTXDB with
    | false => exact hm.depth
    | true =>
        show m.mInFlowTXDBStackDepth + 1 ≤ m.mInFlowTotalTXDBStackDepth + 1
        rw [UInt64.le_iff_toNat_le, toNat_add_one hcount, toNat_add_one (by omega)]
        omega

theorem withNewest_entries (dbs : List DB) (perspectives : List Bytes) (db : DB) (isTXDB : Bool) :
    (m.withNewest T dbs perspectives db isTXDB).mInFlowInterDBs = dbs ++ [db] ∧
      (m.withNewest T dbs perspectives db isTXDB).mInFlowInterPerspectives =
        perspectives ++ [T.getPerspective db] ∧
      (m.withNewest T dbs perspectives db isTXDB).mAllowedInterFlowSteps =
        m.mAllowedInterFlowSteps := by
  cases isTXDB <;> exact ⟨rfl, rfl, rfl⟩

/-- A push treats the stack as a stack exactly when it finds room, or two equal perspectives. -/
theorem sound_pushDB_iff (hm : m.WellFormed T) (hcount : m.mInFlowTotalTXDBStackDepth.toNat + 1 < 2 ^ 64)
    (hallowed : 1 ≤ m.mAllowedInterFlowSteps) (db : DB) (isTXDB : Bool) (explicitObjectID : Bytes) :
    Sound T m (.pushDB db isTXDB explicitObjectID) ↔ Room m (.pushDB db isTXDB explicitObjectID) := by
  have hlength := hm.length_eq
  by_cases hroom : m.mInFlowInterDBs.length < m.mAllowedInterFlowSteps
  · refine iff_of_true
      ⟨m.withNewest T m.mInFlowInterDBs (m.mInFlowInterDBs.map T.getPerspective)
        (m.tagged T db isTXDB explicitObjectID) isTXDB, ?_, ?_, ?_, ?_, trivial⟩ (.inl hroom)
    · rw [run, TransactionManager.pushDB_of_lt hm hroom, hm.aligned]
      rfl
    · rw [(withNewest_entries _ _ _ _).1, entries, if_pos hroom]
    · exact withNewest_wellFormed hm hcount hroom isTXDB
    · exact (withNewest_entries _ _ _ _).2.2
  have hfull : m.mInFlowInterDBs.length = m.mAllowedInterFlowSteps :=
    Nat.le_antisymm hm.bounded (Nat.le_of_not_lt hroom)
  have htail : m.mInFlowInterPerspectives.tail = m.mInFlowInterDBs.tail.map T.getPerspective := by
    rw [hm.aligned, List.map_tail]
  by_cases hone : m.mAllowedInterFlowSteps = 1
  · refine iff_of_false ?_ ?_
    · rintro ⟨m', hsound⟩
      have hrun := hsound.run
      rw [run, TransactionManager.pushDB_of_one hm hone (by omega)] at hrun
      cases hrun
    · rintro (hlt | ⟨perspective, rest, hperspectives⟩)
      · exact hroom hlt
      · rw [hperspectives, List.length_cons, List.length_cons] at hlength
        omega
  have htwo : 2 ≤ m.mAllowedInterFlowSteps := by omega
  have hpush := TransactionManager.pushDB_of_eq hm hfull htwo db isTXDB explicitObjectID
  have hsame := eraseIdx_one_eq_tail_iff (l := m.mInFlowInterPerspectives) (by omega)
  constructor
  · rintro ⟨m', hsound⟩
    right
    rw [← hsame]
    have hrun := hsound.run
    rw [run, hpush] at hrun
    have haligned := hsound.wellFormed.aligned
    obtain rfl : _ = m' := congrArg Prod.snd (Except.ok.inj hrun)
    rw [(withNewest_entries _ _ _ _).1, (withNewest_entries _ _ _ _).2.1, List.map_append,
      List.map_singleton, ← htail] at haligned
    exact List.append_cancel_right haligned
  · rintro (hlt | hperspectives)
    · exact absurd hlt hroom
    have herase := hsame.mpr hperspectives
    rw [herase, htail] at hpush
    refine ⟨m.withNewest T m.mInFlowInterDBs.tail (m.mInFlowInterDBs.tail.map T.getPerspective)
        (m.tagged T db isTXDB explicitObjectID) isTXDB, ?_, ?_, ?_, ?_, trivial⟩
    · rw [run, hpush]
      rfl
    · rw [(withNewest_entries _ _ _ _).1, entries, if_neg hroom]
    · exact withNewest_wellFormed hm hcount (by rw [List.length_tail]; omega) isTXDB
    · exact (withNewest_entries _ _ _ _).2.2

/-- Everything else treats the stack as a stack. -/
theorem sound_iff_room (hT : T.Documented) (hm : m.WellFormed T)
    (hcount : m.mInFlowTotalTXDBStackDepth.toNat + 1 < 2 ^ 64) (hallowed : 1 ≤ m.mAllowedInterFlowSteps) (op : FlowOp DB) : op.Sound T m ↔ op.Room m := by
  cases op with
  | pushDB db isTXDB explicitObjectID => exact sound_pushDB_iff hm hcount hallowed db isTXDB explicitObjectID
  | popDB n =>
      refine iff_of_true ?_ trivial
      have hpop := TransactionManager.popDB_eq hm n
      by_cases hn : n ≤ m.mInFlowInterDBs.length
      · rw [if_pos hn] at hpop
        exact ⟨m.removed n, by rw [run, hpop, answer, decide_eq_true hn], by rw [entries, if_pos hn]; rfl,
          hm.removed n, rfl, trivial⟩
      · rw [if_neg hn] at hpop
        exact ⟨m, by rw [run, hpop, answer, decide_eq_false hn], by rw [entries, if_neg hn], hm, rfl,
          trivial⟩
  | stepBack n =>
      refine iff_of_true ?_ trivial
      by_cases hn : n ≤ m.mInFlowInterDBs.length
      · obtain rfl | hpos := Nat.eq_zero_or_pos n
        · exact ⟨m, by simp [run, TransactionManager.stepBack, answer], by simp [entries], hm, rfl,
            fun hpos => absurd hpos (Nat.lt_irrefl 0)⟩
        obtain ⟨state, hback, hrestores⟩ := TransactionManager.stepBack_eq hT hm hpos hn
        have hremoved := hm.removed n
        exact ⟨{ m.removed n with mFlowStateDB := state },
          by rw [run, hback, answer, decide_eq_true hn], by rw [entries, if_pos hn]; rfl,
          ⟨hremoved.aligned, hremoved.bounded, hremoved.depth⟩, rfl, fun _ _ => hrestores⟩
      · have hback := TransactionManager.stepBack_eq_false hm (Nat.lt_of_not_le hn)
        exact ⟨m, by rw [run, hback, answer, decide_eq_false hn], by rw [entries, if_neg hn], hm, rfl,
          fun _ hle => absurd hle hn⟩
  | change state =>
      exact iff_of_true ⟨_, rfl, rfl, ⟨hm.aligned, hm.bounded, hm.depth⟩, rfl, trivial⟩ trivial
  | setCurrentFlowObjectID id =>
      exact iff_of_true ⟨_, rfl, rfl, ⟨hm.aligned, hm.bounded, hm.depth⟩, rfl, trivial⟩ trivial
  | resetCurrentTXDBStackDepth =>
      exact iff_of_true ⟨_, rfl, rfl, ⟨hm.aligned, hm.bounded, UInt64.zero_le⟩, rfl, trivial⟩ trivial

/-- An operation counts one snapshot at most. -/
theorem total_run_le (hT : T.Documented) (hm : m.WellFormed T) {op : FlowOp DB} {answer : Bool}
    {m' : TransactionManager DB} (hrun : op.run T m = .ok (answer, m')) :
    m'.mInFlowTotalTXDBStackDepth.toNat ≤ m.mInFlowTotalTXDBStackDepth.toNat + 1 := by
  have hremoved : ∀ n, (m.removed n).mInFlowTotalTXDBStackDepth.toNat ≤ m.mInFlowTotalTXDBStackDepth.toNat + 1 := by
    intro n
    rw [TransactionManager.total_removed]
    omega
  cases op with
  | pushDB db isTXDB explicitObjectID =>
      unfold run TransactionManager.pushDB at hrun
      dsimp only at hrun
      split at hrun
      · cases hrun
      split at hrun
      · cases hrun
      cases hrun
      cases isTXDB with
      | false => exact Nat.le_succ _
      | true => exact Nat.mod_le _ _
  | popDB n =>
      rw [run, TransactionManager.popDB_eq hm n] at hrun
      split_ifs at hrun
      · cases hrun
        exact hremoved n
      · cases hrun
        exact Nat.le_succ _
  | stepBack n =>
      by_cases hn : n ≤ m.mInFlowInterDBs.length
      · obtain rfl | hpos := Nat.eq_zero_or_pos n
        · cases hrun
          exact Nat.le_succ _
        · obtain ⟨state, hback, -⟩ := TransactionManager.stepBack_eq hT hm hpos hn
          rw [run, hback] at hrun
          cases hrun
          exact hremoved n
      · rw [run, TransactionManager.stepBack_eq_false hm (Nat.lt_of_not_le hn)] at hrun
        cases hrun
        exact Nat.le_succ _
  | change state =>
      cases hrun
      exact Nat.le_succ _
  | setCurrentFlowObjectID id =>
      cases hrun
      exact Nat.le_succ _
  | resetCurrentTXDBStackDepth =>
      cases hrun
      exact Nat.le_succ _

theorem Sound.next (hT : T.Documented) (hm : m.WellFormed T) {op : FlowOp DB} (hsound : op.Sound T m)
    (hallowed : 1 ≤ m.mAllowedInterFlowSteps) :
    (step T m op).2.WellFormed T ∧ 1 ≤ (step T m op).2.mAllowedInterFlowSteps ∧
      (step T m op).2.mInFlowTotalTXDBStackDepth.toNat ≤ m.mInFlowTotalTXDBStackDepth.toNat + 1 := by
  obtain ⟨m', hsoundly⟩ := hsound
  have hnext : (step T m op).2 = m' := by rw [step, hsoundly.run]
  rw [hnext, hsoundly.allowed]
  exact ⟨hsoundly.wellFormed, hallowed, total_run_le hT hm hsoundly.run⟩

/-- Over a whole flow, in which the counters of snapshots do not come to their end: every operation treats the undo
stack as a stack exactly when every push finds room, or the two oldest entries with the same perspective. -/
theorem everyStep_sound_iff (hT : T.Documented) (hm : m.WellFormed T)
    (hallowed : 1 ≤ m.mAllowedInterFlowSteps) (ops : List (FlowOp DB))
    (hcount : m.mInFlowTotalTXDBStackDepth.toNat + ops.length < 2 ^ 64) :
    Machine.EveryStep (step T) (Sound T) m ops ↔ Machine.EveryStep (step T) Room m ops := by
  induction ops generalizing m with
  | nil => exact Iff.rfl
  | cons op ops ih =>
      rw [List.length_cons] at hcount
      have hiff := sound_iff_room hT hm (by omega) hallowed op
      rw [Machine.everyStep_cons, Machine.everyStep_cons, hiff]
      refine and_congr_right fun hroom => ?_
      obtain ⟨hnext, hallowed', htotal⟩ := (hiff.mpr hroom).next hT hm hallowed
      exact ih hnext hallowed' (by omega)

end FlowOp

section Samples

/-- A state trie that is its perspective, with the ID of its object. -/
def plainTrie : TrieDB (Bytes × Bytes) where
  copy d := d
  getPerspective d := d.1
  getAssociatedObjectID d := d.2
  setAssociatedObjectID d id := (d.1, id)
  setPerspective d p _ := (true, (p, d.2))
  assign _ t := t

theorem plainTrie_documented : plainTrie.Documented where
  copy_perspective _ := rfl
  setAssociatedObjectID_perspective _ _ := rfl
  setAssociatedObjectID_id _ _ := rfl
  setPerspective_perspective _ _ _ _ := rfl
  assign_perspective _ _ := rfl

/-- The beginning of a flow that can go back two steps. -/
def twoSteps : TransactionManager (Bytes × Bytes) where
  mFlowStateDB := ([9], [])
  mAllowedInterFlowSteps := 2

theorem twoSteps_wellFormed : twoSteps.WellFormed plainTrie :=
  ⟨rfl, by decide, by decide⟩

/-- Two pushes and a step back. -/
theorem twoSteps_sound :
    Machine.EveryStep (FlowOp.step plainTrie) (FlowOp.Sound plainTrie) twoSteps
      [.pushDB ([1], []) false [], .pushDB ([2], []) true [7], .stepBack 2] :=
  (FlowOp.everyStep_sound_iff plainTrie_documented twoSteps_wellFormed (by decide) _ (by decide)).mpr
    ⟨.inl (by decide), .inl (by decide), trivial, trivial⟩

/-- The third push leaves the perspective of the first database beside the second one. -/
theorem third_push_misaligned :
    ¬ Machine.EveryStep (FlowOp.step plainTrie) (FlowOp.Sound plainTrie) twoSteps
      [.pushDB ([1], []) false [], .pushDB ([2], []) false [], .pushDB ([3], []) false []] := by
  rintro ⟨-, -, ⟨m', hsound⟩, -⟩
  obtain rfl : _ = m' := congrArg Prod.snd (Except.ok.inj hsound.run)
  exact absurd hsound.wellFormed.aligned (by decide)

end Samples

end Gridnet
