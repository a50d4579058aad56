import Mathlib.Algebra.BigOperators.Group.Finset.Basic
import Mathlib.Data.BitVec
import Gridnet.Bytes
import Gridnet.Machine

/-! The domains that `CStateDomainManager` knows of. Two lists are kept, the known domains and those
created during a flow; the second is appended to the first when the flow ends and cleared only when
the next one begins. Beside the lists the run keeps the two sets they stand for, so that what
`getKnownDomainIDs` and `getTotalSupply` answer can be compared with them. -/

namespace Gridnet

/-- What the manager uses of a `CTrieDB`, whose code is not at hand. `addNodeExt` says whether its
result was `added`. -/
structure StateTrie (DB : Type) where
  addNodeExt : DB → Bytes → Bool → Bool × DB
  getKnownNodeIDs : DB → List Bytes

/-- A trie has one node for each ID. -/
def StateTrie.Documented {DB : Type} (T : StateTrie DB) : Prop := ∀ db, (T.getKnownNodeIDs db).Nodup

/-- What the supply needs of a state domain. -/
structure DomainView where
  friendlyID : String
  getBalance : BigInt
  getLockedAssets : BigInt

/-- The domains as `findByID` finds them, and the comparison of `CTools` without regard to case. -/
structure DomainLedger where
  findByID : Bytes → Option DomainView
  iequals : String → String → Bool

namespace DomainLedger

def specialDomains : List String := ["ICOFund", "TheFund"]

def isSpecialDomain (ledger : DomainLedger) (friendlyID : String) : Bool :=
  specialDomains.any fun special => ledger.iequals special friendlyID

/-- What one domain adds to the supply; nothing, if it is excluded or cannot be found. -/
def supplyOf (ledger : DomainLedger) (id : Bytes) : BigInt :=
  match ledger.findByID id with
  | none => 0
  | some domain => if ledger.isSpecialDomain domain.friendlyID then 0 else domain.getBalance

/-- One turn of the loop of `getTotalSupply`, over live domains. -/
def addDomain (ledger : DomainLedger) (totals : BigInt × BigInt) (id : Bytes) : BigInt × BigInt :=
  match ledger.findByID id with
  | none => totals
  | some domain =>
      if ledger.isSpecialDomain domain.friendlyID then totals
      else (totals.1 + domain.getBalance, totals.2 + domain.getLockedAssets)

end DomainLedger

/-- The fields of `CStateDomainManager` that the lists of domains depend on. -/
structure StateDomainManager (DB : Type) where
  mCurrentDB : DB
  mTransactionsManager : Bool := true
  mInFlow : Bool := false
  mKnownStateDomainIDs : List Bytes
  mDomainsCreatedDuringFlow : List Bytes := []

namespace StateDomainManager

variable {DB : Type} (T : StateTrie DB)

def getKnownDomainIDs (m : StateDomainManager DB) (includeThoseFromCurrentFlow : Bool) :
    List Bytes × StateDomainManager DB :=
  let m := if m.mKnownStateDomainIDs = [] then
      { m with mKnownStateDomainIDs := T.getKnownNodeIDs m.mCurrentDB }
    else m
  (if includeThoseFromCurrentFlow then m.mKnownStateDomainIDs ++ m.mDomainsCreatedDuringFlow
    else m.mKnownStateDomainIDs, m)

def getKnownDomainsCount (m : StateDomainManager DB) (includeThoseCreatedDuringTheFlow : Bool) : ℕ :=
  m.mKnownStateDomainIDs.length +
    if includeThoseCreatedDuringTheFlow then m.mDomainsCreatedDuringFlow.length else 0

/-- `getTotalSupply` without the cache and over live domains. -/
def getTotalSupply (ledger : DomainLedger) (m : StateDomainManager DB) (includeLockedAssets : Bool) :
    BigInt :=
  let (totalSupply, totalLockedAssets) :=
    (m.getKnownDomainIDs T true).1.foldl ledger.addDomain (0, 0)
  if includeLockedAssets then totalSupply
  else if totalLockedAssets ≤ totalSupply then totalSupply - totalLockedAssets
  else 0

/-- IDs of fewer than 34 bytes are filled up with zeros. -/
def paddedID (id : Bytes) : Bytes := id ++ List.replicate (34 - id.length) 0

def create (m : StateDomainManager DB) (id : Bytes) (inSandbox : Bool) :
    Bool × StateDomainManager DB :=
  let id := paddedID id
  let (added, db) := T.addNodeExt m.mCurrentDB id inSandbox
  let m := { m with mCurrentDB := db }
  if added then
    (true, if m.mInFlow then
        { m with mDomainsCreatedDuringFlow := m.mDomainsCreatedDuringFlow ++ [id] }
      else m)
  else (false, m)

def cleanUpFlowData (m : StateDomainManager DB) : StateDomainManager DB :=
  { m with mDomainsCreatedDuringFlow := [] }

/-- `enterFlow`, given the database of the flow and whether all registered domains could enter it. -/
def enterFlow (m : StateDomainManager DB) (flowDB : DB) (domainsEntered : Bool) :
    Bool × StateDomainManager DB :=
  if m.mInFlow then (false, m)
  else if !m.mTransactionsManager then (false, m)
  else
    let m := { m with mDomainsCreatedDuringFlow := [], mCurrentDB := flowDB }
    if domainsEntered then (true, { m with mInFlow := true }) else (false, m)

def exitFlow (m : StateDomainManager DB) (updateKnownStateDomainIDs : Bool) (liveDB : DB) :
    Bool × StateDomainManager DB :=
  if !m.mInFlow then (false, m)
  else
    let m := if updateKnownStateDomainIDs then
        { m with
          mKnownStateDomainIDs := m.mKnownStateDomainIDs ++ m.mDomainsCreatedDuringFlow }
      else m
    (true, { m with mCurrentDB := liveDB, mInFlow := false })

end StateDomainManager

/-- The operations of the manager. The databases of the flow and of the live state are those that its
transactions manager hands out at that time. -/
inductive DomainOp (DB : Type) where
  | enterFlow (flowDB : DB) (domainsEntered : Bool)
  | create (id : Bytes) (inSandbox : Bool)
  | exitFlow (updateKnownStateDomainIDs : Bool) (liveDB : DB)
  | cleanUpFlowData
  | getKnownDomainIDs (includeThoseFromCurrentFlow : Bool)

/-- A manager with the sets its lists stand for: the known domains, those created since the flow data
was cleared last, and which of these a flow has already handed over to the known ones. -/
structure Census (DB : Type) where
  manager : StateDomainManager DB
  known : Finset Bytes
  created : Finset Bytes := ∅
  merged : Finset Bytes := ∅

namespace Census

variable {DB : Type} (T : StateTrie DB)

def start (m : StateDomainManager DB) : Census DB where
  manager := m
  known := m.mKnownStateDomainIDs.toFinset

/-- One operation with its answer. A domain created outside a flow is known at once. -/
def step (s : Census DB) : DomainOp DB → Bool × Census DB
  | .enterFlow flowDB domainsEntered =>
      let r := s.manager.enterFlow flowDB domainsEntered
      (r.1, if s.manager.mInFlow || !s.manager.mTransactionsManager then { s with manager := r.2 }
        else { s with manager := r.2, created := ∅, merged := ∅ })
  | .create id inSandbox =>
      let r := s.manager.create T id inSandbox
      let id := StateDomainManager.paddedID id
      (r.1, if !r.1 then { s with manager := r.2 }
        else if s.manager.mInFlow then { s with manager := r.2, created := insert id s.created }
        else { s with manager := r.2, known := insert id s.known })
  | .exitFlow updateKnownStateDomainIDs liveDB =>
      let r := s.manager.exitFlow updateKnownStateDomainIDs liveDB
      (r.1, if s.manager.mInFlow && updateKnownStateDomainIDs then
          { s with manager := r.2, known := s.known ∪ s.created, merged := s.created }
        else { s with manager := r.2 })
  | .cleanUpFlowData =>
      (true, { s with manager := s.manager.cleanUpFlowData, created := ∅, merged := ∅ })
  | .getKnownDomainIDs includeThoseFromCurrentFlow =>
      let r := s.manager.getKnownDomainIDs T includeThoseFromCurrentFlow
      (true, { s with manager := r.2, known := r.2.mKnownStateDomainIDs.toFinset ∪ s.known })

/-- The supply counts every domain once: the list has every known or created domain exactly once, the
count is its length, and the supply is the sum over these domains. -/
structure CountsOnce (s : Census DB) : Prop where
  nodup : (s.manager.getKnownDomainIDs T true).1.Nodup
  all : ∀ id, id ∈ (s.manager.getKnownDomainIDs T true).1 ↔ id ∈ s.known ∪ s.created
  count : s.manager.getKnownDomainsCount true = (s.manager.getKnownDomainIDs T true).1.length
  supply : ∀ ledger : DomainLedger, s.manager.getTotalSupply T ledger true =
    ∑ id ∈ s.known ∪ s.created, ledger.supplyOf id

/-- What a step needs for the lists to stay in step with the sets: a domain is created within a flow
and is on neither list, and a list that is still to be loaded has no domain of the running flow. -/
def Recorded (s : Census DB) : DomainOp DB → Prop
  | .create id inSandbox =>
      (s.manager.create T id inSandbox).1 = true →
        s.manager.mInFlow = true ∧
          StateDomainManager.paddedID id ∉ s.manager.mKnownStateDomainIDs ∧
          StateDomainManager.paddedID id ∉ s.manager.mDomainsCreatedDuringFlow
  | .getKnownDomainIDs _ =>
      s.manager.mKnownStateDomainIDs = [] →
        ∀ id ∈ T.getKnownNodeIDs s.manager.mCurrentDB,
          id ∉ s.manager.mDomainsCreatedDuringFlow
  | _ => True

/-- The lists stand for the sets, and what they share is what a flow handed over before it was
cleared; within a flow they share nothing. -/
structure Inv (s : Census DB) : Prop where
  known_nodup : s.manager.mKnownStateDomainIDs.Nodup
  created_nodup : s.manager.mDomainsCreatedDuringFlow.Nodup
  known : s.known = s.manager.mKnownStateDomainIDs.toFinset
  created : s.created = s.manager.mDomainsCreatedDuringFlow.toFinset
  merged : s.merged = s.known ∩ s.created
  inFlow : s.manager.mInFlow = true → s.merged = ∅

theorem inv_start {m : StateDomainManager DB} (hnodup : m.mKnownStateDomainIDs.Nodup)
    (hcreated : m.mDomainsCreatedDuringFlow = []) : (start m).Inv where
  known_nodup := hnodup
  created_nodup := by rw [start, hcreated]; exact List.nodup_nil
  known := rfl
  created := by rw [start, hcreated]; rfl
  merged := (Finset.inter_empty _).symm
  inFlow _ := rfl

variable {T} {s : Census DB}

/-- Two lists share nothing exactly when their sets do not meet. -/
theorem Inv.merged_eq_empty_iff (hinv : s.Inv) : s.merged = ∅ ↔
    s.manager.mKnownStateDomainIDs.Disjoint s.manager.mDomainsCreatedDuringFlow := by
  rw [hinv.merged, hinv.known, hinv.created, ← Finset.disjoint_iff_inter_eq_empty,
    List.disjoint_toFinset_iff_disjoint]

theorem Inv.clear (hinv : s.Inv) {m : StateDomainManager DB}
    (hknown : m.mKnownStateDomainIDs = s.manager.mKnownStateDomainIDs)
    (hcreated : m.mDomainsCreatedDuringFlow = []) :
    Inv { s with manager := m, created := ∅, merged := ∅ } where
  known_nodup := hknown ▸ hinv.known_nodup
  created_nodup := by rw [hcreated]; exact List.nodup_nil
  known := hknown ▸ hinv.known
  created := by rw [hcreated]; rfl
  merged := (Finset.inter_empty _).symm
  inFlow _ := rfl

/-- Steps that touch neither list. -/
theorem Inv.sameLists (hinv : s.Inv) {m : StateDomainManager DB}
    (hknown : m.mKnownStateDomainIDs = s.manager.mKnownStateDomainIDs)
    (hcreated : m.mDomainsCreatedDuringFlow = s.manager.mDomainsCreatedDuringFlow)
    (hflow : m.mInFlow = true → s.manager.mInFlow = true) : Inv { s with manager := m } where
  known_nodup := hknown ▸ hinv.known_nodup
  created_nodup := hcreated ▸ hinv.created_nodup
  known := hknown ▸ hinv.known
  created := hcreated ▸ hinv.created
  merged := hinv.merged
  inFlow h := hinv.inFlow (hflow h)

/-- A domain created within a flow that is on neither list. -/
theorem Inv.append (hinv : s.Inv) {m : StateDomainManager DB} {id : Bytes}
    (hknown : m.mKnownStateDomainIDs = s.manager.mKnownStateDomainIDs)
    (hcreated : m.mDomainsCreatedDuringFlow = s.manager.mDomainsCreatedDuringFlow ++ [id])
    (hflow : m.mInFlow = true → s.manager.mInFlow = true)
    (hnew : id ∉ s.manager.mKnownStateDomainIDs)
    (hfresh : id ∉ s.manager.mDomainsCreatedDuringFlow) :
    Inv { s with manager := m, created := insert id s.created } where
  known_nodup := hknown ▸ hinv.known_nodup
  created_nodup := by
    rw [hcreated, ← List.concat_eq_append]
    exact hinv.created_nodup.concat hfresh
  known := hknown ▸ hinv.known
  created := by
    rw [hcreated, List.toFinset_append, hinv.created, Finset.insert_eq, Finset.union_comm]
    rfl
  merged := by
    have hunknown : id ∉ s.known := by
      rw [hinv.known, List.mem_toFinset]
      exact hnew
    rw [Finset.inter_insert_of_notMem hunknown]
    exact hinv.merged
  inFlow h := hinv.inFlow (hflow h)

theorem Inv.create (hinv : s.Inv) {id : Bytes} {inSandbox : Bool}
    (hrecorded : s.Recorded T (.create id inSandbox)) :
    (s.step T (.create id inSandbox)).2.Inv := by
  simp only [step]
  cases hadded : (s.manager.create T id inSandbox).1 with
  | false =>
      refine hinv.sameLists ?_ ?_ ?_ <;>
        · revert hadded
          simp only [StateDomainManager.create]
          split_ifs <;> simp
  | true =>
      obtain ⟨hflow, hnew, hfresh⟩ := hrecorded hadded
      rw [Bool.not_true, if_neg Bool.false_ne_true, if_pos hflow]
      refine hinv.append ?_ ?_ (fun _ => hflow) hnew hfresh <;>
        · revert hadded
          simp only [StateDomainManager.create, hflow, if_true]
          split_ifs <;> simp

/-- The end of a flow that hands its domains over. -/
theorem Inv.handOver (hinv : s.Inv) {m : StateDomainManager DB} (hflow : s.manager.mInFlow = true)
    (hknown : m.mKnownStateDomainIDs =
      s.manager.mKnownStateDomainIDs ++ s.manager.mDomainsCreatedDuringFlow)
    (hcreated : m.mDomainsCreatedDuringFlow = s.manager.mDomainsCreatedDuringFlow)
    (hended : m.mInFlow = false) :
    Inv { s with manager := m, known := s.known ∪ s.created, merged := s.created } where
  known_nodup := by
    rw [hknown]
    exact hinv.known_nodup.append hinv.created_nodup
      (hinv.merged_eq_empty_iff.mp (hinv.inFlow hflow))
  created_nodup := hcreated ▸ hinv.created_nodup
  known := by rw [hknown, List.toFinset_append, hinv.known, hinv.created]
  created := hcreated ▸ hinv.created
  merged := (Finset.inter_eq_right.mpr Finset.subset_union_right).symm
  inFlow h := absurd (hended.symm.trans h) Bool.false_ne_true

/-- The list that is loaded from the trie, when it is empty. -/
theorem Inv.reload (hT : T.Documented) (hinv : s.Inv) {includeThoseFromCurrentFlow : Bool}
    (hrecorded : s.Recorded T (.getKnownDomainIDs includeThoseFromCurrentFlow)) :
    (s.step T (.getKnownDomainIDs includeThoseFromCurrentFlow)).2.Inv := by
  simp only [step, StateDomainManager.getKnownDomainIDs]
  split_ifs with hempty
  · have hknown : s.known = ∅ := by rw [hinv.known, hempty]; rfl
    have hmerged : s.merged = ∅ := by rw [hinv.merged, hknown, Finset.empty_inter]
    refine ⟨hT _, hinv.created_nodup, by rw [hknown, Finset.union_empty], hinv.created, ?_,
      fun _ => hmerged⟩
    rw [hmerged, hknown, Finset.union_empty, hinv.created, eq_comm,
      ← Finset.disjoint_iff_inter_eq_empty, List.disjoint_toFinset_iff_disjoint]
    exact fun id hid => hrecorded hempty id hid
  · rw [← hinv.known, Finset.union_self]
    exact hinv

theorem Inv.step (hT : T.Documented) (hinv : s.Inv) {op : DomainOp DB} (hrecorded : s.Recorded T op) :
    (s.step T op).2.Inv := by
  cases op with
  | enterFlow flowDB domainsEntered =>
      simp only [Census.step, StateDomainManager.enterFlow]
      cases hflow : s.manager.mInFlow with
      | true => exact hinv.sameLists rfl rfl (fun _ => hflow)
      | false =>
          cases hmanager : s.manager.mTransactionsManager with
          | false => exact hinv.sameLists rfl rfl (fun h => absurd (hflow ▸ h) Bool.false_ne_true)
          | true => cases domainsEntered <;> exact hinv.clear rfl rfl
  | create id inSandbox => exact hinv.create hrecorded
  | exitFlow updateKnownStateDomainIDs liveDB =>
      simp only [Census.step, StateDomainManager.exitFlow]
      cases hflow : s.manager.mInFlow with
      | false => exact hinv.sameLists rfl rfl (fun h => absurd (hflow ▸ h) Bool.false_ne_true)
      | true =>
          cases updateKnownStateDomainIDs with
          | false => exact hinv.sameLists rfl rfl (fun h => absurd h Bool.false_ne_true)
          | true => exact hinv.handOver hflow rfl rfl rfl
  | cleanUpFlowData => exact hinv.clear rfl rfl
  | getKnownDomainIDs includeThoseFromCurrentFlow => exact hinv.reload hT hrecorded

/-- The loop of `getTotalSupply` adds what each listed domain adds to the supply. -/
theorem foldl_addDomain (ledger : DomainLedger) (ids : List Bytes) (totals : BigInt × BigInt) :
    (ids.foldl ledger.addDomain totals).1 = totals.1 + (ids.map ledger.supplyOf).sum := by
  induction ids generalizing totals with
  | nil => exact (add_zero _).symm
  | cons id ids ih =>
      have hturn : (ledger.addDomain totals id).1 = totals.1 + ledger.supplyOf id := by
        rw [DomainLedger.addDomain, DomainLedger.supplyOf]
        cases ledger.findByID id with
        | none => exact (add_zero _).symm
        | some domain =>
            dsimp only
            split_ifs
            · exact (add_zero _).symm
            · rfl
      rw [List.foldl_cons, ih, hturn, List.map_cons, List.sum_cons, add_assoc]

theorem getTotalSupply_eq (T : StateTrie DB) (m : StateDomainManager DB) (ledger : DomainLedger) :
    m.getTotalSupply T ledger true = ((m.getKnownDomainIDs T true).1.map ledger.supplyOf).sum := by
  have hsum := foldl_addDomain ledger (m.getKnownDomainIDs T true).1 (0, 0)
  rw [zero_add] at hsum
  exact hsum

theorem getKnownDomainIDs_loaded {m : StateDomainManager DB}
    (hloaded : m.mKnownStateDomainIDs = [] → T.getKnownNodeIDs m.mCurrentDB = []) :
    (m.getKnownDomainIDs T true).1 = m.mKnownStateDomainIDs ++ m.mDomainsCreatedDuringFlow := by
  simp only [StateDomainManager.getKnownDomainIDs, if_true]
  split_ifs with hempty
  · rw [hloaded hempty, hempty]
  · rfl

/-- The manager counts every domain once exactly when no domain is on both lists and the list of known
domains is not still to be loaded. -/
theorem Inv.countsOnce_iff (hinv : s.Inv) :
    s.CountsOnce T ↔ s.merged = ∅ ∧ (s.manager.mKnownStateDomainIDs = [] →
      T.getKnownNodeIDs s.manager.mCurrentDB = []) := by
  constructor
  · intro hcounts
    have hloaded : s.manager.mKnownStateDomainIDs = [] →
        T.getKnownNodeIDs s.manager.mCurrentDB = [] := by
      intro hempty
      have hcount := hcounts.count
      simp only [StateDomainManager.getKnownDomainsCount, StateDomainManager.getKnownDomainIDs,
        hempty, if_true, List.length_append, List.length_nil] at hcount
      exact List.length_eq_zero_iff.mp (by omega)
    refine ⟨hinv.merged_eq_empty_iff.mpr ?_, hloaded⟩
    have hnodup := hcounts.nodup
    rw [getKnownDomainIDs_loaded hloaded] at hnodup
    exact List.disjoint_of_nodup_append hnodup
  · rintro ⟨hmerged, hloaded⟩
    have hlist := getKnownDomainIDs_loaded hloaded
    have hnodup : (s.manager.getKnownDomainIDs T true).1.Nodup := by
      rw [hlist]
      exact hinv.known_nodup.append hinv.created_nodup (hinv.merged_eq_empty_iff.mp hmerged)
    have hset : (s.manager.getKnownDomainIDs T true).1.toFinset = s.known ∪ s.created := by
      rw [hlist, List.toFinset_append, hinv.known, hinv.created]
    refine ⟨hnodup, fun id => ?_, ?_, fun ledger => ?_⟩
    · rw [← hset, List.mem_toFinset]
    · rw [hlist, List.length_append]
      rfl
    · rw [getTotalSupply_eq, ← hset, List.sum_toFinset _ hnodup]

end Census

/-- After a run whose creations take place in a flow and are new to both lists, and whose loading of
the known domains brings back none of the running flow, every domain is counted once exactly when no
ended flow has handed over domains that are still on the list of created ones, and the known domains
are not still to be loaded. -/
theorem supply_counts_once_iff {DB : Type} {T : StateTrie DB} (hT : T.Documented)
    {m : StateDomainManager DB} (hnodup : m.mKnownStateDomainIDs.Nodup)
    (hcreated : m.mDomainsCreatedDuringFlow = []) {ops : List (DomainOp DB)}
    (hops : Machine.EveryStep (Census.step T) (Census.Recorded T) (Census.start m) ops) :
    (Machine.final (Census.step T) (Census.start m) ops).CountsOnce T ↔
      (Machine.final (Census.step T) (Census.start m) ops).merged = ∅ ∧
        ((Machine.final (Census.step T) (Census.start m) ops).manager.mKnownStateDomainIDs = [] →
          T.getKnownNodeIDs
            (Machine.final (Census.step T) (Census.start m) ops).manager.mCurrentDB = []) := by
  have hstep (s : Census DB) (op : DomainOp DB) (hinv : s.Inv) (hrecorded : s.Recorded T op) :
      s.Inv ∧ (Census.step T s op).2.Inv :=
    ⟨hinv, hinv.step hT hrecorded⟩
  obtain ⟨-, hend⟩ :=
    Machine.everyStep_of_invariant hstep (Census.inv_start hnodup hcreated) hops
  exact hend.countsOnce_iff

/-! ### A trie that is a list of IDs -/

def listTrie : StateTrie (List Bytes) where
  addNodeExt db id inSandbox :=
    if id ∈ db then (false, db) else (true, if inSandbox then db else db ++ [id])
  getKnownNodeIDs db := db.dedup

theorem listTrie_documented : listTrie.Documented := fun db => db.nodup_dedup

/-- One known domain, and a flow that creates another one. -/
def oneKnown : StateDomainManager (List Bytes) where
  mCurrentDB := [StateDomainManager.paddedID [1]]
  mKnownStateDomainIDs := [StateDomainManager.paddedID [1]]

def flowOfOne : List (DomainOp (List Bytes)) :=
  [.enterFlow oneKnown.mCurrentDB true, .create [2] false]

theorem supply_counts_once_in_flow :
    (Machine.final (Census.step listTrie) (Census.start oneKnown) flowOfOne).CountsOnce listTrie := by
  have hrecorded : Machine.EveryStep (Census.step listTrie) (Census.Recorded listTrie)
      (Census.start oneKnown) flowOfOne :=
    ⟨trivial, fun _ => by decide, trivial⟩
  exact (supply_counts_once_iff listTrie_documented (by decide) rfl hrecorded).mpr
    ⟨by decide, by decide⟩

/-- Every domain has seven coins. -/
def sevenEach : DomainLedger where
  findByID _ := some ⟨"", 7, 0⟩
  iequals a b := a == b

/-- Once the flow has handed its domain over, the two domains have 21 coins. -/
theorem supply_counts_twice_after_flow :
    let s := Machine.final (Census.step listTrie) (Census.start oneKnown)
      (flowOfOne ++ [.exitFlow true (oneKnown.mCurrentDB ++ [StateDomainManager.paddedID [2]])])
    s.manager.getKnownDomainIDs listTrie true =
        ([StateDomainManager.paddedID [1], StateDomainManager.paddedID [2],
          StateDomainManager.paddedID [2]], s.manager) ∧
      s.manager.getTotalSupply listTrie sevenEach true = 21 ∧ ¬ s.CountsOnce listTrie := by
  intro s
  have hlist : (s.manager.getKnownDomainIDs listTrie true).1 =
      [StateDomainManager.paddedID [1], StateDomainManager.paddedID [2],
        StateDomainManager.paddedID [2]] := by decide
  refine ⟨Prod.ext hlist rfl, by decide +kernel, fun hcounts => ?_⟩
  have hnodup := hcounts.nodup
  rw [hlist] at hnodup
  revert hnodup
  decide

end Gridnet
