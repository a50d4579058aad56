import Gridnet.FlowStack

/-! Reverting a transaction. Its snapshots are found by the depth counter and by the object they
belong to; both agree as long as no snapshot drops another one. -/

namespace Gridnet

namespace TransactionManager

variable {DB : Type}

/-- What happens while a transaction is processed: the state changes, or a snapshot of it is pushed. -/
inductive TxEvent (DB : Type) where
  | change (state : DB)
  | snapshot

/-- The transaction up to the point where it is reverted or kept. -/
def process (T : TrieDB DB) :
    TransactionManager DB → List (TxEvent DB) → Except Fault (TransactionManager DB)
  | m, [] => .ok m
  | m, .change state :: events => process T { m with mFlowStateDB := state } events
  | m, .snapshot :: events =>
      match m.pushDB T (T.copy m.mFlowStateDB) true [] with
      | .error e => .error e
      | .ok m => process T m events

def snapshots : List (TxEvent DB) → ℕ
  | [] => 0
  | .change _ :: events => snapshots events
  | .snapshot :: events => snapshots events + 1

/-- The state at the first snapshot; without one the last state. -/
def startState : DB → List (TxEvent DB) → DB
  | state, [] => state
  | _, .change state :: events => startState state events
  | state, .snapshot :: _ => state

/-- Nothing of the transaction is left on the stack, and everything that was there before. -/
structure Cleaned (m m' : TransactionManager DB) : Prop where
  dbs : m'.mInFlowInterDBs = m.mInFlowInterDBs
  perspectives : m'.mInFlowInterPerspectives = m.mInFlowInterPerspectives
  depth : m'.mInFlowTXDBStackDepth = 0
  total : m'.mInFlowTotalTXDBStackDepth = m.mInFlowTotalTXDBStackDepth

/-- The transaction leaves no trace: reverted, it leaves the state it began with, and kept, the state
it ended with. -/
def LeavesNoTrace (T : TrieDB DB) (m : TransactionManager DB) (events : List (TxEvent DB)) : Prop :=
  ∃ m₁, m.process T events = .ok m₁ ∧
    (∃ m₂, m₁.revertTX T = .ok (true, m₂) ∧ m.Cleaned m₂ ∧
      T.getPerspective m₂.mFlowStateDB = T.getPerspective (startState m.mFlowStateDB events)) ∧
    (∃ m₂, m₁.popCurrentTXDBs T = .ok (true, m₂) ∧ m.Cleaned m₂ ∧
      m₂.mFlowStateDB = m₁.mFlowStateDB)

variable {T : TrieDB DB}

/-- In the middle of a transaction: its snapshots lie on what was there before, belong to the current
object and are counted. -/
structure Inside (T : TrieDB DB) (m m₁ : TransactionManager DB) (own : List DB) : Prop where
  wellFormed : m₁.WellFormed T
  dbs : m₁.mInFlowInterDBs = m.mInFlowInterDBs ++ own
  ids : ∀ db ∈ own, T.getAssociatedObjectID db = m₁.mCurrentFlowObjectID
  depth : m₁.mInFlowTXDBStackDepth.toNat = own.length
  total : m₁.mInFlowTotalTXDBStackDepth.toNat = m.mInFlowTotalTXDBStackDepth.toNat + own.length
  allowed : m₁.mAllowedInterFlowSteps = m.mAllowedInterFlowSteps

/-- A snapshot that finds room. -/
theorem Inside.snapshot (hT : T.Documented) {m m₁ : TransactionManager DB} {own : List DB}
    (hinside : Inside T m m₁ own)
    (hroom : (m.mInFlowInterDBs ++ own).length < m.mAllowedInterFlowSteps)
    (hcount : m.mInFlowTotalTXDBStackDepth.toNat + own.length + 1 < 2 ^ 64) :
    ∃ m₂ db, m₁.pushDB T (T.copy m₁.mFlowStateDB) true [] = .ok m₂ ∧
      Inside T m m₂ (own ++ [db]) ∧ m₂.mFlowStateDB = m₁.mFlowStateDB ∧
      T.getPerspective db = T.getPerspective m₁.mFlowStateDB := by
  have hroom₁ : m₁.mInFlowInterDBs.length < m₁.mAllowedInterFlowSteps := by
    rw [hinside.dbs, hinside.allowed]
    exact hroom
  have hpush := pushDB_of_lt hinside.wellFormed hroom₁ (T.copy m₁.mFlowStateDB) true []
  have htotal : m₁.mInFlowTotalTXDBStackDepth.toNat + 1 < 2 ^ 64 := by
    rw [hinside.total]
    exact hcount
  have hdepth : m₁.mInFlowTXDBStackDepth.toNat + 1 < 2 ^ 64 :=
    (Nat.succ_le_succ (UInt64.le_iff_toNat_le.mp hinside.wellFormed.depth)).trans_lt htotal
  refine ⟨_, m₁.tagged T (T.copy m₁.mFlowStateDB) true [], hpush, ?_, rfl, ?_⟩
  · rw [hinside.wellFormed.aligned]
    exact
      { wellFormed := FlowOp.withNewest_wellFormed hinside.wellFormed htotal hroom₁ true
        dbs := by
          rw [(FlowOp.withNewest_entries _ _ _ _).1, hinside.dbs, List.append_assoc]
        ids := by
          intro db hdb
          obtain hdb | hdb := List.mem_append.mp hdb
          · exact hinside.ids db hdb
          · rw [List.mem_singleton.mp hdb]
            exact hT.setAssociatedObjectID_id _ _
        depth := by
          rw [List.length_append, ← hinside.depth]
          exact FlowOp.toNat_add_one hdepth
        total := by
          rw [List.length_append, ← Nat.add_assoc, ← hinside.total]
          exact FlowOp.toNat_add_one htotal
        allowed := hinside.allowed }
  · rw [tagged, hT.setAssociatedObjectID_perspective, hT.copy_perspective]

/-- Without an eviction, processing adds the snapshots one after another; the first of them has the
perspective of the state at that time. -/
theorem Inside.process (hT : T.Documented) {m m₁ : TransactionManager DB} {own : List DB}
    (hinside : Inside T m m₁ own) (events : List (TxEvent DB))
    (hroom : (m.mInFlowInterDBs ++ own).length + snapshots events ≤ m.mAllowedInterFlowSteps)
    (hcount : m.mInFlowTotalTXDBStackDepth.toNat + own.length + snapshots events < 2 ^ 64) :
    ∃ m₂ new, m₁.process T events = .ok m₂ ∧ Inside T m m₂ (own ++ new) ∧
      T.getPerspective (new.head?.getD m₂.mFlowStateDB) =
        T.getPerspective (startState m₁.mFlowStateDB events) := by
  induction events generalizing m₁ own with
  | nil => exact ⟨m₁, [], rfl, by rwa [List.append_nil], rfl⟩
  | cons event events ih =>
      cases event with
      | change state =>
          have hchanged : Inside T m { m₁ with mFlowStateDB := state } own :=
            ⟨⟨hinside.wellFormed.aligned, hinside.wellFormed.bounded, hinside.wellFormed.depth⟩,
              hinside.dbs, hinside.ids, hinside.depth, hinside.total, hinside.allowed⟩
          exact ih hchanged hroom hcount
      | snapshot =>
          simp only [snapshots] at hroom hcount
          obtain ⟨m', db, hpush, hinside', hstate, hperspective⟩ :=
            hinside.snapshot hT (by omega) (by omega)
          have hroom' : (m.mInFlowInterDBs ++ (own ++ [db])).length + snapshots events ≤
              m.mAllowedInterFlowSteps := by
            simp only [List.length_append, List.length_singleton] at hroom ⊢
            omega
          have hcount' : m.mInFlowTotalTXDBStackDepth.toNat + (own ++ [db]).length + snapshots events < 2 ^ 64 := by
            rw [List.length_append, List.length_singleton]
            omega
          obtain ⟨m₂, new, hprocess, hinside₂, -⟩ := ih hinside' hroom' hcount'
          refine ⟨m₂, db :: new, ?_, by rwa [← List.append_cons] at *, hperspective⟩
          rw [TransactionManager.process, hpush]
          exact hprocess

/-- The loop of both ways to end a transaction: what every step keeps, the loop keeps, and it removes
exactly the own snapshots. -/
theorem unwind_inside {m : TransactionManager DB} {Φ : TransactionManager DB → List DB → Prop}
    {step : TransactionManager DB → Except Fault (Bool × TransactionManager DB)}
    (hstep : ∀ m₁ own db, Inside T m m₁ (own ++ [db]) → Φ m₁ (own ++ [db]) →
      ∃ m₂, step m₁ = .ok (true, m₂) ∧ Inside T m m₂ own ∧ Φ m₂ own)
    {m₁ : TransactionManager DB} {own : List DB} (hinside : Inside T m m₁ own) (hΦ : Φ m₁ own)
    (k : ℕ) :
    ∃ m₂, unwind T step own.length k m₁ = .ok (some (k + own.length), m₂) ∧ Inside T m m₂ [] ∧
      Φ m₂ [] := by
  induction own using List.reverseRecOn generalizing m₁ k with
  | nil => exact ⟨m₁, rfl, hinside, hΦ⟩
  | append_singleton own db ih =>
      have hdepth := hinside.depth
      rw [List.length_append, List.length_singleton] at hdepth
      have htop : m₁.mInFlowInterDBs.getLast? = some db := by
        rw [hinside.dbs, ← List.append_assoc, List.getLast?_concat]
      have hid : T.getAssociatedObjectID db = m₁.mCurrentFlowObjectID :=
        hinside.ids db (by simp)
      obtain ⟨m₂, hone, hinside₂, hΦ₂⟩ := hstep m₁ own db hinside hΦ
      obtain ⟨m₃, hloop, hinside₃, hΦ₃⟩ := ih hinside₂ hΦ₂ (k + 1)
      refine ⟨m₃, ?_, hinside₃, hΦ₃⟩
      have hpositive : 0 < m₁.mInFlowTXDBStackDepth := UInt64.lt_iff_toNat_lt.mpr (hdepth ▸ Nat.succ_pos _)
      rw [List.length_append, List.length_singleton, unwind, if_pos hpositive, htop]
      dsimp only
      rw [if_neg (fun h => h hid), hone]
      dsimp only
      rw [hloop]
      congr 3
      omega

/-- One step less inside the transaction. -/
theorem Inside.removed {m m₁ : TransactionManager DB} {own : List DB} {db : DB}
    (hinside : Inside T m m₁ (own ++ [db])) (state : DB) :
    Inside T m { m₁.removed 1 with mFlowStateDB := state } own := by
  have hdbs := hinside.dbs
  have hdepth := hinside.depth
  have htotal := hinside.total
  rw [List.length_append, List.length_singleton] at hdepth htotal
  have hremoved := hinside.wellFormed.removed 1
  constructor
  · exact ⟨hremoved.aligned, hremoved.bounded, hremoved.depth⟩
  · simp only [TransactionManager.removed]
    rw [hdbs, ← List.append_assoc, List.length_append, List.length_singleton, Nat.add_sub_cancel,
      List.take_left]
  · exact fun db hdb => hinside.ids db (List.mem_append_left _ hdb)
  · show (m₁.removed 1).mInFlowTXDBStackDepth.toNat = own.length
    rw [depth_removed]
    omega
  · show (m₁.removed 1).mInFlowTotalTXDBStackDepth.toNat = m.mInFlowTotalTXDBStackDepth.toNat + own.length
    rw [total_removed]
    omega
  · exact hinside.allowed

theorem Inside.length_pos {m m₁ : TransactionManager DB} {own : List DB} {db : DB}
    (hinside : Inside T m m₁ (own ++ [db])) : 1 ≤ m₁.mInFlowInterDBs.length := by
  rw [hinside.dbs]
  simp only [List.length_append, List.length_singleton]
  omega

/-- Stepping back once sets the perspective of the newest snapshot. -/
theorem stepBack_inside (hT : T.Documented) {m m₁ : TransactionManager DB} {own : List DB} {db : DB}
    (hinside : Inside T m m₁ (own ++ [db])) :
    ∃ m₂, m₁.stepBack T 1 = .ok (true, m₂) ∧ Inside T m m₂ own ∧
      T.getPerspective m₂.mFlowStateDB = T.getPerspective db := by
  obtain ⟨state, hback, hperspective⟩ :=
    stepBack_eq hT hinside.wellFormed Nat.one_pos hinside.length_pos
  refine ⟨_, hback, hinside.removed state, ?_⟩
  rw [hinside.wellFormed.aligned, List.getElem?_map, hinside.dbs, ← List.append_assoc,
    List.length_append, List.length_singleton, Nat.add_sub_cancel, List.getElem?_concat_length]
    at hperspective
  exact (Option.some.inj hperspective).symm

theorem popDB_inside {m m₁ : TransactionManager DB} {own : List DB} {db : DB}
    (hinside : Inside T m m₁ (own ++ [db])) :
    ∃ m₂, m₁.popDB 1 = .ok (true, m₂) ∧ Inside T m m₂ own ∧
      m₂.mFlowStateDB = m₁.mFlowStateDB := by
  have hpop := popDB_eq hinside.wellFormed 1
  rw [if_pos hinside.length_pos] at hpop
  exact ⟨_, hpop, hinside.removed m₁.mFlowStateDB, rfl⟩

/-- The loop with its assertions: nothing of the transaction is left. -/
theorem unwindTX_inside {m : TransactionManager DB} (hm : m.WellFormed T)
    {Φ : TransactionManager DB → List DB → Prop}
    {step : TransactionManager DB → Except Fault (Bool × TransactionManager DB)}
    (hstep : ∀ m₁ own db, Inside T m m₁ (own ++ [db]) → Φ m₁ (own ++ [db]) →
      ∃ m₂, step m₁ = .ok (true, m₂) ∧ Inside T m m₂ own ∧ Φ m₂ own)
    {m₁ : TransactionManager DB} {own : List DB} (hinside : Inside T m m₁ own) (hΦ : Φ m₁ own) :
    ∃ m₂, m₁.unwindTX T step = .ok (true, m₂) ∧ m.Cleaned m₂ ∧ Φ m₂ [] := by
  obtain ⟨m₂, hloop, hinside₂, hΦ₂⟩ := unwind_inside hstep hinside hΦ 0
  have hdbs : m₂.mInFlowInterDBs = m.mInFlowInterDBs := by
    rw [hinside₂.dbs, List.append_nil]
  have hzero : m₂.mInFlowTXDBStackDepth = 0 := UInt64.toNat_inj.mp hinside₂.depth
  refine ⟨m₂, ?_, ⟨hdbs, ?_, hzero, UInt64.toNat_inj.mp hinside₂.total⟩, hΦ₂⟩
  · unfold unwindTX
    rw [hinside.depth, hloop]
    dsimp only
    rw [if_neg (by simp), if_pos hzero]
  · rw [hinside₂.wellFormed.aligned, hdbs, hm.aligned]

/-- Every push is counted, and leaves no more databases than allowed. -/
theorem evict_length {α : Type} {allowed turns i i' : ℕ} {l l' : List α}
    (hturns : l.length < turns) (hevict : evict allowed turns i l = .ok (l', i')) :
    l'.length < allowed := by
  induction turns generalizing i l with
  | zero => exact absurd hturns (Nat.not_lt_zero _)
  | succ turns ih =>
      rw [evict] at hevict
      split_ifs at hevict with hfull hi
      · refine ih ?_ hevict
        rw [List.length_eraseIdx_of_lt hi]
        omega
      · obtain rfl : l = l' := congrArg Prod.fst (Except.ok.inj hevict)
        exact Nat.lt_of_not_le hfull

theorem pushDB_counts {m m' : TransactionManager DB} {db : DB} {explicitObjectID : Bytes}
    (hpush : m.pushDB T db true explicitObjectID = .ok m') :
    m'.mInFlowInterDBs.length ≤ m'.mAllowedInterFlowSteps ∧
      m'.mInFlowTXDBStackDepth = m.mInFlowTXDBStackDepth + 1 ∧
      m'.mAllowedInterFlowSteps = m.mAllowedInterFlowSteps := by
  unfold pushDB at hpush
  dsimp only at hpush
  split at hpush
  · cases hpush
  · rename_i dbs i hdbs
    split at hpush
    · cases hpush
    · obtain rfl := Except.ok.inj hpush
      have hlength := evict_length (Nat.lt_succ_self _) hdbs
      refine ⟨?_, rfl, rfl⟩
      simpa [incInFlowTXDBStackDepth] using hlength

theorem process_counts {m m' : TransactionManager DB} {events : List (TxEvent DB)}
    (hbounded : m.mInFlowInterDBs.length ≤ m.mAllowedInterFlowSteps)
    (hcount : m.mInFlowTXDBStackDepth.toNat + snapshots events < 2 ^ 64) (hprocess : m.process T events = .ok m') :
    m'.mInFlowInterDBs.length ≤ m.mAllowedInterFlowSteps ∧
      m'.mInFlowTXDBStackDepth.toNat = m.mInFlowTXDBStackDepth.toNat + snapshots events := by
  induction events generalizing m with
  | nil =>
      obtain rfl := Except.ok.inj hprocess
      exact ⟨hbounded, rfl⟩
  | cons event events ih =>
      cases event with
      | change state => exact ih (m := { m with mFlowStateDB := state }) hbounded hcount hprocess
      | snapshot =>
          rw [TransactionManager.process] at hprocess
          split at hprocess
          · cases hprocess
          · rename_i m₁ hpush
            obtain ⟨hbounded₁, hdepth, hallowed⟩ := pushDB_counts hpush
            rw [snapshots] at hcount ⊢
            have hsucc : m₁.mInFlowTXDBStackDepth.toNat = m.mInFlowTXDBStackDepth.toNat + 1 := by
              rw [hdepth]
              exact FlowOp.toNat_add_one (by omega)
            obtain ⟨hlength, hcounted⟩ := ih hbounded₁ (by omega) hprocess
            exact ⟨hallowed ▸ hlength, by omega⟩

theorem cleanNewest_dbs {m m' : TransactionManager DB} (hclean : m.cleanNewest = .ok m') :
    m'.mInFlowInterDBs = m.mInFlowInterDBs.dropLast := by
  unfold cleanNewest at hclean
  split_ifs at hclean with hrange
  dsimp only at hclean
  split at hclean
  · cases hclean
  · rename_i m₁ hcounted
    obtain rfl := Except.ok.inj hclean
    split_ifs at hcounted
    · unfold decInFlowTXDBStackDepth at hcounted
      split_ifs at hcounted
      obtain rfl := Except.ok.inj hcounted
      rfl
    · obtain rfl := Except.ok.inj hcounted
      rfl

/-- A step back that succeeds removes one database. -/
theorem stepBack_length {m m' : TransactionManager DB}
    (hback : m.stepBack T 1 = .ok (true, m')) :
    m'.mInFlowInterDBs.length + 1 = m.mInFlowInterDBs.length := by
  have hclean : ∀ state, (cleanNewestN 1 { m with mFlowStateDB := state }).map (fun m => (true, m)) =
      .ok (true, m') → m'.mInFlowInterDBs = m.mInFlowInterDBs.dropLast := by
    intro state hstate
    cases hone : cleanNewest { m with mFlowStateDB := state } with
    | error e =>
        rw [cleanNewestN, hone] at hstate
        cases hstate
    | ok cleaned =>
        rw [cleanNewestN, hone] at hstate
        obtain rfl : cleaned = m' := congrArg Prod.snd (Except.ok.inj hstate)
        have hdbs := cleanNewest_dbs hone
        exact hdbs
  unfold stepBack at hback
  rw [if_neg Nat.one_ne_zero] at hback
  split_ifs at hback with hmany
  · cases hback
  have hpos : 1 ≤ m.mInFlowInterDBs.length := by omega
  have hdbs : m'.mInFlowInterDBs = m.mInFlowInterDBs.dropLast := by
    dsimp only at hback
    split at hback
    · split_ifs at hback with hset hsame
      · exact hclean _ hback
      · cases hback
      · exact hclean _ hback
    · cases hback
  rw [hdbs, List.length_dropLast]
  omega

/-- The loop removes one database for each step that it counts. -/
theorem unwind_length
    {step : TransactionManager DB → Except Fault (Bool × TransactionManager DB)}
    (hstep : ∀ m m', step m = .ok (true, m') →
      m'.mInFlowInterDBs.length + 1 = m.mInFlowInterDBs.length)
    {turns k steps : ℕ} {m m' : TransactionManager DB}
    (hloop : unwind T step turns k m = .ok (some steps, m')) :
    m'.mInFlowInterDBs.length + steps = m.mInFlowInterDBs.length + k := by
  induction turns generalizing k m with
  | zero =>
      obtain ⟨hsteps, rfl⟩ := Prod.mk.inj (Except.ok.inj hloop)
      rw [Option.some.inj hsteps]
  | succ turns ih =>
      rw [unwind] at hloop
      split_ifs at hloop with hdepth
      · split at hloop
        · cases hloop
        · split_ifs at hloop
          · obtain ⟨hsteps, rfl⟩ := Prod.mk.inj (Except.ok.inj hloop)
            rw [Option.some.inj hsteps]
          · split at hloop
            · cases hloop
            · cases hloop
            · rename_i m₁ hone
              have hfirst := hstep m m₁ hone
              have hrest := ih hloop
              omega
      · obtain ⟨hsteps, rfl⟩ := Prod.mk.inj (Except.ok.inj hloop)
        rw [Option.some.inj hsteps]

theorem revertTX_length {m m' : TransactionManager DB} (hrevert : m.revertTX T = .ok (true, m')) :
    m'.mInFlowInterDBs.length + m.mInFlowTXDBStackDepth.toNat = m.mInFlowInterDBs.length := by
  unfold revertTX unwindTX at hrevert
  split at hrevert
  · cases hrevert
  · cases hrevert
  · rename_i steps m₁ hloop
    have hlength := unwind_length (fun _ _ => stepBack_length) hloop
    split_ifs at hrevert with hsteps hzero
    · obtain rfl : m₁ = m' := congrArg Prod.snd (Except.ok.inj hrevert)
      omega
    · split at hrevert
      · cases hrevert
      · split_ifs at hrevert
        obtain rfl : m₁ = m' := congrArg Prod.snd (Except.ok.inj hrevert)
        omega

/-- A transaction whose snapshots can be counted leaves no trace exactly when they fit on the stack beside what was
there before. -/
theorem leavesNoTrace_iff (hT : T.Documented) {m : TransactionManager DB} (hm : m.WellFormed T)
    (hdepth : m.mInFlowTXDBStackDepth = 0) (events : List (TxEvent DB))
    (hcount : m.mInFlowTotalTXDBStackDepth.toNat + snapshots events < 2 ^ 64) :
    LeavesNoTrace T m events ↔
      m.mInFlowInterDBs.length + snapshots events ≤ m.mAllowedInterFlowSteps := by
  constructor
  · rintro ⟨m₁, hprocess, ⟨m₂, hrevert, hcleaned, -⟩, -⟩
    have hzero : m.mInFlowTXDBStackDepth.toNat = 0 := congrArg UInt64.toNat hdepth
    obtain ⟨hbounded, hcounted⟩ := process_counts hm.bounded (by omega) hprocess
    have hlength := revertTX_length hrevert
    rw [hcleaned.dbs, hcounted, hzero] at hlength
    omega
  · intro hroom
    have hinside : Inside T m m [] := by
      exact ⟨hm, by simp, by simp, congrArg UInt64.toNat hdepth, rfl, rfl⟩
    obtain ⟨m₁, own, hprocess, hinside₁, hstart⟩ :=
      hinside.process hT events (by rwa [List.append_nil]) hcount
    rw [List.nil_append] at hinside₁
    obtain ⟨m₂, hrevert, hcleaned, hstate⟩ := unwindTX_inside hm
      (Φ := fun m' own => T.getPerspective (own.head?.getD m'.mFlowStateDB) =
        T.getPerspective (startState m.mFlowStateDB events))
      (fun m' own db hin hΦ => by
        obtain ⟨m'', hback, hin', hperspective⟩ := stepBack_inside hT hin
        refine ⟨m'', hback, hin', ?_⟩
        cases own with
        | nil => exact hperspective.trans hΦ
        | cons first own => exact hΦ)
      hinside₁ hstart
    obtain ⟨m₃, hpop, hcleaned₃, hkept⟩ := unwindTX_inside hm
      (Φ := fun m' _ => m'.mFlowStateDB = m₁.mFlowStateDB)
      (fun m' own db hin hΦ => by
        obtain ⟨m'', hpop, hin', hsame⟩ := popDB_inside hin
        exact ⟨m'', hpop, hin', hsame.trans hΦ⟩)
      hinside₁ rfl
    exact ⟨m₁, hprocess, ⟨m₂, hrevert, hcleaned, hstate⟩, ⟨m₃, hpop, hcleaned₃, hkept⟩⟩

end TransactionManager

section Samples

open TransactionManager

/-- Two snapshots with changes between them. -/
theorem twoSteps_leavesNoTrace :
    LeavesNoTrace plainTrie twoSteps [.snapshot, .change ([5], []), .snapshot, .change ([6], [])] :=
  (leavesNoTrace_iff plainTrie_documented twoSteps_wellFormed rfl _ (by decide)).mpr (by decide)

/-- A third snapshot leaves a counter of three over two databases: `revertTX` fails its assertion. -/
theorem third_snapshot_asserts :
    ¬ LeavesNoTrace plainTrie twoSteps [.snapshot, .change ([5], []), .snapshot, .snapshot] := by
  rintro ⟨m₁, hprocess, ⟨m₂, hrevert, -⟩, -⟩
  obtain rfl := Except.ok.inj hprocess
  cases hrevert

end Samples

end Gridnet
