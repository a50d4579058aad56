import Gridnet.FlowRevert
import Gridnet.LedgerModel

/-! The undo stack as a stack of ledgers: what pushing, popping and stepping back do to the domains of
the flow state, in the middle of a transaction and at its end. -/

namespace Gridnet

namespace TransactionManager

variable {DB : Type}

/-- The domains of the flow state. -/
def ledger (T : LedgerTrie DB) (m : TransactionManager DB) : Ledger := T.domains m.mFlowStateDB

def withLedger (T : LedgerTrie DB) (m : TransactionManager DB) (l : Ledger) : TransactionManager DB :=
  { m with mFlowStateDB := T.withDomains m.mFlowStateDB l }

/-- The flow state after the domains were changed, if they were. -/
def withChanged (T : LedgerTrie DB) (m : TransactionManager DB) :
    Option Ledger → TransactionManager DB
  | none => m
  | some l => m.withLedger T l

/-- What stepping back to an entry makes of the flow state. -/
def restored (T : TrieDB DB) (state target : DB) : DB :=
  let set := T.setPerspective state (T.getPerspective target) target
  if set.1 then set.2 else T.assign set.2 target

/-- In the middle of a transaction whose snapshots hold these domains. -/
def During (T : LedgerTrie DB) (m m₁ : TransactionManager DB) (snapshots : List Ledger) : Prop :=
  ∃ own, Inside T.toTrieDB m m₁ own ∧ own.map T.domains = snapshots

variable {T : LedgerTrie DB} {m m₁ : TransactionManager DB} {snapshots : List Ledger} {l : Ledger}

@[simp] theorem ledger_withLedger (hT : T.Documented) (l : Ledger) :
    (m.withLedger T l).ledger T = l := hT.domains_withDomains ..

theorem ledger_withChanged (hT : T.Documented) (changed : Option Ledger) :
    (m.withChanged T changed).ledger T = changed.getD (m.ledger T) := by
  cases changed with
  | none => rfl
  | some l => exact ledger_withLedger hT l

/-- On an undo stack that allows two entries a push does not fail, and leaves the flow state alone. -/
theorem pushDB_ok (hm : m.WellFormed T.toTrieDB) (htwo : 2 ≤ m.mAllowedInterFlowSteps) (db : DB)
    (isTXDB : Bool) (explicitObjectID : Bytes) :
    ∃ m', m.pushDB T.toTrieDB db isTXDB explicitObjectID = .ok m' ∧
      m'.mFlowStateDB = m.mFlowStateDB := by
  rcases Nat.lt_or_ge m.mInFlowInterDBs.length m.mAllowedInterFlowSteps with hroom | hfull
  · refine ⟨_, pushDB_of_lt hm hroom db isTXDB explicitObjectID, ?_⟩
    cases isTXDB <;> rfl
  · have hlength : m.mInFlowInterDBs.length = m.mAllowedInterFlowSteps :=
      Nat.le_antisymm hm.bounded hfull
    refine ⟨_, pushDB_of_eq hm hlength htwo db isTXDB explicitObjectID, ?_⟩
    cases isTXDB <;> rfl

/-- Stepping back once sets the flow state to the newest entry. -/
theorem stepBack_concat (hT : T.toTrieDB.Documented) (hm : m.WellFormed T.toTrieDB) {dbs : List DB}
    {target : DB} (hdbs : m.mInFlowInterDBs = dbs ++ [target]) :
    m.stepBack T.toTrieDB 1 = .ok (true,
      { m.removed 1 with mFlowStateDB := restored T.toTrieDB m.mFlowStateDB target }) := by
  have hlength := hm.length_eq
  have hcount : m.mInFlowInterDBs.length = dbs.length + 1 := by
    rw [hdbs, List.length_append, List.length_singleton]
  have htarget : m.mInFlowInterDBs[dbs.length]? = some target := by
    rw [hdbs, List.getElem?_concat_length]
  have hperspective : m.mInFlowInterPerspectives[dbs.length]? = some (T.getPerspective target) := by
    rw [hm.aligned, List.getElem?_map, htarget, Option.map_some]
  have hclean : ∀ state, cleanNewestN 1 { m with mFlowStateDB := state } =
      .ok { m.removed 1 with mFlowStateDB := state } := by
    intro state
    have hstate : WellFormed T.toTrieDB { m with mFlowStateDB := state } :=
      ⟨hm.aligned, hm.bounded, hm.depth⟩
    exact cleanNewestN_eq hstate (n := 1) (by simp only [hcount]; omega)
  have hindex : dbs.length + 1 - 1 = dbs.length := Nat.add_sub_cancel ..
  unfold stepBack
  rw [if_neg Nat.one_ne_zero, if_neg (by omega)]
  dsimp only
  rw [hlength, hcount, hindex, htarget, hperspective]
  dsimp only
  by_cases hset : (T.setPerspective m.mFlowStateDB (T.getPerspective target) target).1 = true
  · rw [if_pos hset, hclean, restored, if_pos hset]
    rfl
  · rw [if_neg hset, if_neg (not_not_intro (hT.assign_perspective _ _)), hclean, restored,
      if_neg hset]
    rfl

theorem domains_restored (hT : T.Documented) (state target : DB) :
    T.domains (restored T.toTrieDB state target) = T.domains target := by
  unfold restored
  dsimp only
  split_ifs with hset
  · exact hT.domains_setPerspective state target hset
  · exact hT.domains_assign _ _

/-! ### In the middle of a transaction -/

theorem During.withLedger (hduring : During T m m₁ snapshots) (l : Ledger) :
    During T m (m₁.withLedger T l) snapshots := by
  obtain ⟨own, hinside, hsnapshots⟩ := hduring
  exact ⟨own,
    { wellFormed := ⟨hinside.wellFormed.aligned, hinside.wellFormed.bounded,
        hinside.wellFormed.depth⟩
      dbs := hinside.dbs
      ids := hinside.ids
      depth := hinside.depth
      total := hinside.total
      allowed := hinside.allowed }, hsnapshots⟩

theorem During.withChanged (hduring : During T m m₁ snapshots) (changed : Option Ledger) :
    During T m (m₁.withChanged T changed) snapshots := by
  cases changed with
  | none => exact hduring
  | some l => exact hduring.withLedger l

/-- A snapshot that finds room. -/
theorem During.snapshot (hT : T.Documented) (hduring : During T m m₁ snapshots)
    (hroom : m.mInFlowInterDBs.length + snapshots.length < m.mAllowedInterFlowSteps)
    (hcount : m.mInFlowTotalTXDBStackDepth.toNat + snapshots.length + 1 < 2 ^ 64) :
    ∃ m₂, m₁.pushDB T.toTrieDB (T.copy m₁.mFlowStateDB) true [] = .ok m₂ ∧
      During T m m₂ (snapshots ++ [m₁.ledger T]) ∧ m₂.mFlowStateDB = m₁.mFlowStateDB := by
  obtain ⟨own, hinside, rfl⟩ := hduring
  rw [List.length_map] at hroom hcount
  have hroom₁ : m₁.mInFlowInterDBs.length < m₁.mAllowedInterFlowSteps := by
    rw [hinside.dbs, hinside.allowed, List.length_append]
    exact hroom
  have hpush := pushDB_of_lt hinside.wellFormed hroom₁ (T.copy m₁.mFlowStateDB) true []
  have hdomains : T.domains (m₁.tagged T.toTrieDB (T.copy m₁.mFlowStateDB) true []) =
      m₁.ledger T := by
    rw [tagged, hT.domains_setAssociatedObjectID, hT.domains_copy, ledger]
  refine ⟨_, hpush, ⟨own ++ [m₁.tagged T.toTrieDB (T.copy m₁.mFlowStateDB) true []], ?_, ?_⟩, rfl⟩
  · obtain ⟨m₂, db, hpush₂, hinside₂, -, -⟩ := hinside.snapshot hT.toDocumented (by
      rw [List.length_append]
      exact hroom) hcount
    obtain rfl := Except.ok.inj (hpush.symm.trans hpush₂)
    have hdbs := hinside₂.dbs
    have hnewest : m₁.mInFlowInterDBs ++ [m₁.tagged T.toTrieDB (T.copy m₁.mFlowStateDB) true []] =
        m.mInFlowInterDBs ++ (own ++ [db]) := hdbs
    rw [hinside.dbs, List.append_assoc, List.append_cancel_left_eq, List.append_cancel_left_eq]
      at hnewest
    rw [hnewest]
    exact hinside₂
  · rw [List.map_append, List.map_singleton, hdomains]

theorem During.popDB (hduring : During T m m₁ (snapshots ++ [l])) :
    ∃ m₂, m₁.popDB 1 = .ok (true, m₂) ∧ During T m m₂ snapshots ∧
      m₂.mFlowStateDB = m₁.mFlowStateDB := by
  obtain ⟨own, hinside, hown⟩ := hduring
  obtain ⟨first, last, rfl, rfl, hlast⟩ := List.map_eq_append_iff.mp hown
  obtain ⟨db, rfl, -⟩ := List.map_eq_singleton_iff.mp hlast
  obtain ⟨m₂, hpop, hinside₂, hstate⟩ := popDB_inside hinside
  exact ⟨m₂, hpop, ⟨first, hinside₂, rfl⟩, hstate⟩

theorem During.stepBack (hT : T.Documented) (hduring : During T m m₁ (snapshots ++ [l])) :
    ∃ m₂, m₁.stepBack T.toTrieDB 1 = .ok (true, m₂) ∧ During T m m₂ snapshots ∧
      m₂.ledger T = l := by
  obtain ⟨own, hinside, hown⟩ := hduring
  obtain ⟨first, last, rfl, rfl, hlast⟩ := List.map_eq_append_iff.mp hown
  obtain ⟨db, rfl, hdb⟩ := List.map_eq_singleton_iff.mp hlast
  have hdbs : m₁.mInFlowInterDBs = (m.mInFlowInterDBs ++ first) ++ [db] := by
    rw [hinside.dbs, List.append_assoc]
  have hback := stepBack_concat hT.toDocumented hinside.wellFormed hdbs
  exact ⟨_, hback, ⟨first, hinside.removed _, rfl⟩, (domains_restored hT _ _).trans hdb⟩

/-! ### At its end -/

/-- Reverted, a transaction leaves the domains of its first snapshot. -/
theorem During.revertTX (hT : T.Documented) (hm : m.WellFormed T.toTrieDB)
    (hduring : During T m m₁ snapshots) :
    ∃ m₂, m₁.revertTX T.toTrieDB = .ok (true, m₂) ∧ m.Cleaned m₂ ∧
      m₂.mAllowedInterFlowSteps = m.mAllowedInterFlowSteps ∧
      m₂.ledger T = snapshots.head?.getD (m₁.ledger T) := by
  obtain ⟨own, hinside, rfl⟩ := hduring
  obtain ⟨m₂, hrevert, hcleaned, hallowed, hstate⟩ := unwindTX_inside hm
    (Φ := fun m' own' => m'.mAllowedInterFlowSteps = m.mAllowedInterFlowSteps ∧
      (own'.map T.domains).head?.getD (m'.ledger T) =
        (own.map T.domains).head?.getD (m₁.ledger T))
    (fun m' own' db hin hΦ => by
      have hdbs : m'.mInFlowInterDBs = (m.mInFlowInterDBs ++ own') ++ [db] := by
        rw [hin.dbs, List.append_assoc]
      have hback := stepBack_concat hT.toDocumented hin.wellFormed hdbs
      refine ⟨_, hback, hin.removed _, hΦ.1, ?_⟩
      cases own' with
      | nil => exact (domains_restored hT _ _).trans hΦ.2
      | cons first own' => exact hΦ.2)
    hinside ⟨hinside.allowed, rfl⟩
  exact ⟨m₂, hrevert, hcleaned, hallowed, hstate⟩

/-- Kept, it leaves the domains as they are. -/
theorem During.popCurrentTXDBs (hm : m.WellFormed T.toTrieDB) (hduring : During T m m₁ snapshots) :
    ∃ m₂, m₁.popCurrentTXDBs T.toTrieDB = .ok (true, m₂) ∧ m.Cleaned m₂ ∧
      m₂.mAllowedInterFlowSteps = m.mAllowedInterFlowSteps ∧
      m₂.mFlowStateDB = m₁.mFlowStateDB := by
  obtain ⟨own, hinside, -⟩ := hduring
  obtain ⟨m₂, hpop, hcleaned, hallowed, hstate⟩ := unwindTX_inside hm
    (Φ := fun m' _ => m'.mAllowedInterFlowSteps = m.mAllowedInterFlowSteps ∧
      m'.mFlowStateDB = m₁.mFlowStateDB)
    (fun m' own' db hin hΦ => by
      obtain ⟨m'', hpop, hin', hsame⟩ := popDB_inside hin
      exact ⟨m'', hpop, hin', hin'.allowed, hsame.trans hΦ.2⟩)
    hinside ⟨hinside.allowed, rfl⟩
  exact ⟨m₂, hpop, hcleaned, hallowed, hstate⟩

end TransactionManager

end Gridnet
