import Gridnet.MemPoolCleaning

/-! What the removals from the memory pool leave. The clean-up does not look at the second object when it deletes the
first, and takes a time of receipt in the future for an age; the removal by hash compares as many bytes as it is given
and passes over the entry behind each one it erases. -/

namespace Gridnet

open EraseLoop

variable {M D : Type}

namespace PoolObject

/-- A mark that the clean-up deletes an object for at once. -/
def Marked (object : PoolObject) : Prop :=
  object.HotProperties.markedForDeletion = true ∨ object.HotProperties.markedAsInvalid = true

def IsTransaction : PoolObject → Prop
  | .transaction _ _ => True
  | _ => False

end PoolObject

section Cleaning

variable (S : PoolServices M D)

/-- Older than it may get. -/
def Expired (mReceivedAt : UInt64) (hot : HotStorageProperties) : Prop :=
  (ageLimit hot).toNat < S.currentTime.toNat - mReceivedAt.toNat

/-- The pre-validation finds that the transaction can never be processed. -/
def TerminallyInvalid (tx : PoolTransaction) : Prop :=
  ∃ value, preValidateTransaction S.toNodeServices S.ledger tx.toCTransaction S.getCachedKeyHeight (some value) ∈
    [eTransactionValidationResult.invalidBytecode, .invalidSig]

/-- What an object may be removed for: a mark, a confirmation more than two blocks deep, its age. -/
def MayBeRemoved (object : PoolObject) : Prop :=
  object.Marked ∨
    match object with
    | .transaction tx mReceivedAt =>
        (∃ blockHeight, S.receiptHeight tx = some blockHeight ∧
          blockHeight.toNat + 2 < S.getCachedHeight.toNat) ∨
        Expired S mReceivedAt tx.HotProperties ∨
        TerminallyInvalid S tx ∧ Expired S mReceivedAt tx.markHotAsInvalid.HotProperties
    | .verifiable ver mReceivedAt => Expired S mReceivedAt ver.HotProperties
    | .other _ => False

/-- The clean-up judges the object rightly: it is marked, or of a known type, and its time of receipt, where that is
asked for, has come. -/
def RightlyJudged (object : PoolObject) : Prop :=
  object.Marked ∨
    match object with
    | .transaction tx mReceivedAt => S.receiptHeight tx = none → mReceivedAt ≤ S.currentTime
    | .verifiable _ mReceivedAt => mReceivedAt ≤ S.currentTime
    | .other _ => False

/-- What a turn deletes. -/
def Deletes (s : CleanState M D) (object : PoolObject) : Prop :=
  object.Marked ∨
    match object with
    | .transaction tx mReceivedAt =>
        match S.receiptHeight tx with
        | some blockHeight => S.confirmedDeeply blockHeight = true
        | none => ageLimit (S.preValidationUpdate (S.retrieveMetadata s tx) tx).1.HotProperties <
            S.timeDiff mReceivedAt
    | .verifiable ver mReceivedAt => ageLimit ver.HotProperties < S.timeDiff mReceivedAt
    | .other _ => True

variable {S}

theorem examine_fst_eq_none_iff {s : CleanState M D} {entry : PoolEntry} :
    (S.examine s entry).1 = none ↔ Deletes S { s with examined := s.examined ++ [entry.pointer] } entry.object := by
  obtain ⟨pointer, object⟩ := entry
  rw [PoolServices.examine, Deletes.eq_def, PoolObject.Marked]
  by_cases hdeletion : object.HotProperties.markedForDeletion = true
  · simp [hdeletion]
  by_cases hinvalid : object.HotProperties.markedAsInvalid = true
  · simp [hinvalid]
  simp only [hdeletion, hinvalid, Bool.false_eq_true, if_false, or_self, false_or]
  cases object with
  | transaction tx mReceivedAt =>
      dsimp only
      cases S.receiptHeight tx with
      | some blockHeight => simp
      | none => simp
  | verifiable ver mReceivedAt => simp
  | other HotProperties => simp

theorem examine_of_kept {s : CleanState M D} {entry kept : PoolEntry} (hkept : (S.examine s entry).1 = some kept) :
    kept.pointer = entry.pointer ∧ (kept.object.IsTransaction ↔ entry.object.IsTransaction) := by
  obtain ⟨pointer, object⟩ := entry
  rw [PoolServices.examine] at hkept
  split_ifs at hkept with hdeletion hinvalid
  cases object with
  | transaction tx mReceivedAt =>
      dsimp only at hkept
      cases hreceipt : S.receiptHeight tx with
      | some blockHeight =>
          rw [hreceipt] at hkept
          dsimp only at hkept
          split_ifs at hkept
          rw [← Option.some.inj hkept]
          exact ⟨rfl, Iff.rfl⟩
      | none =>
          rw [hreceipt] at hkept
          dsimp only at hkept
          split_ifs at hkept
          rw [← Option.some.inj hkept]
          exact ⟨rfl, Iff.rfl⟩
  | verifiable ver mReceivedAt =>
      dsimp only at hkept
      split_ifs at hkept
      rw [← Option.some.inj hkept]
      exact ⟨rfl, Iff.rfl⟩
  | other HotProperties => cases hkept

theorem retrieveMetadata_examined (s : CleanState M D) (tx : PoolTransaction) :
    (S.retrieveMetadata s tx).examined = s.examined := by
  rw [PoolServices.retrieveMetadata]
  cases S.getMemPoolTXMeta s.manager (S.receiptID tx) with
  | some txMeta => rfl
  | none =>
      dsimp only
      cases S.createTransactionDescription s.manager tx with
      | mk txMeta manager => cases txMeta with
        | none => rfl
        | some txMeta => rfl

theorem preValidationUpdate_examined (s : CleanState M D) (tx : PoolTransaction) :
    (S.preValidationUpdate s tx).2.examined = s.examined := by
  rw [PoolServices.preValidationUpdate]
  cases s.transDesc with
  | none => rfl
  | some transDesc =>
      dsimp only
      split_ifs <;> rfl

theorem examine_examined (s : CleanState M D) (entry : PoolEntry) :
    (S.examine s entry).2.examined = s.examined ++ [entry.pointer] := by
  obtain ⟨pointer, object⟩ := entry
  rw [PoolServices.examine]
  split_ifs with hdeletion hinvalid
  · rfl
  · rfl
  cases object with
  | transaction tx mReceivedAt =>
      dsimp only
      cases S.receiptHeight tx with
      | some blockHeight => rfl
      | none => exact (preValidationUpdate_examined _ _).trans (retrieveMetadata_examined _ _)
  | verifiable ver mReceivedAt => rfl
  | other HotProperties => rfl

/-! ### What the turns delete -/

/-- The pre-validation marks what is terminally invalid, or leaves the transaction as it is. -/
theorem preValidationUpdate_fst (s : CleanState M D) (tx : PoolTransaction) :
    (S.preValidationUpdate s tx).1 = tx ∨
      (S.preValidationUpdate s tx).1 = tx.markHotAsInvalid ∧ TerminallyInvalid S tx := by
  rw [PoolServices.preValidationUpdate]
  cases s.transDesc with
  | none => exact Or.inl rfl
  | some transDesc =>
      dsimp only
      split_ifs with hdue hresult
      · refine Or.inr ⟨rfl, S.getValue s.manager transDesc, ?_⟩
        simpa using hresult
      · exact Or.inl rfl
      · exact Or.inl rfl

theorem ageLimit_le (hot : HotStorageProperties) : (ageLimit hot).toNat ≤ 86400 := by
  rw [ageLimit]
  split_ifs <;> decide

/-- A time of receipt that has come gives the age. -/
theorem timeDiff_lt_iff {mReceivedAt : UInt64} (hcome : mReceivedAt ≤ S.currentTime) (hot : HotStorageProperties) :
    ageLimit hot < S.timeDiff mReceivedAt ↔ Expired S mReceivedAt hot := by
  rw [Expired, PoolServices.timeDiff, UInt64.lt_iff_toNat_lt, UInt64.toNat_sub_of_le _ _ hcome]

/-- One that has not come passes for an age beyond every limit. -/
theorem timeDiff_of_future {mReceivedAt : UInt64} (hfuture : ¬mReceivedAt ≤ S.currentTime)
    (hot : HotStorageProperties) : ageLimit hot < S.timeDiff mReceivedAt := by
  have hlimit := ageLimit_le hot
  have hclock : 86400 ≤ S.currentTime.toNat := UInt64.le_iff_toNat_le.mp S.currentTime_ge
  have hlt := UInt64.lt_iff_toNat_lt.mp (UInt64.not_le.mp hfuture)
  have hreceived := mReceivedAt.toNat_lt
  rw [PoolServices.timeDiff, UInt64.lt_iff_toNat_lt, UInt64.toNat_sub]
  omega

theorem not_expired_of_future {mReceivedAt : UInt64} (hfuture : ¬mReceivedAt ≤ S.currentTime)
    (hot : HotStorageProperties) : ¬Expired S mReceivedAt hot := by
  have hlt := UInt64.lt_iff_toNat_lt.mp (UInt64.not_le.mp hfuture)
  rw [Expired]
  omega

theorem mayBeRemoved_of_deletes {s : CleanState M D} {object : PoolObject} (hright : RightlyJudged S object)
    (hdeletes : Deletes S s object) : MayBeRemoved S object := by
  rcases hright with hmarked | hright
  · exact Or.inl hmarked
  rcases hdeletes with hmarked | hdeletes
  · exact Or.inl hmarked
  refine Or.inr ?_
  cases object with
  | transaction tx mReceivedAt =>
      dsimp only at hright hdeletes ⊢
      cases hreceipt : S.receiptHeight tx with
      | some blockHeight =>
          rw [hreceipt] at hdeletes
          refine Or.inl ⟨blockHeight, rfl, ?_⟩
          simp only [PoolServices.confirmedDeeply, Bool.and_eq_true, decide_eq_true_eq] at hdeletes
          obtain ⟨⟨-, hhigher⟩, hdeep⟩ := hdeletes
          have hle := UInt64.le_of_lt hhigher
          have hsub := UInt64.lt_iff_toNat_lt.mp hdeep
          rw [UInt64.toNat_sub_of_le _ _ hle] at hsub
          have htwo : (2 : UInt64).toNat = 2 := rfl
          omega
      | none =>
          rw [hreceipt] at hdeletes
          have hexpired := (timeDiff_lt_iff (hright hreceipt) _).mp hdeletes
          rcases preValidationUpdate_fst (S.retrieveMetadata s tx) tx with hsame | ⟨hmarked, hinvalid⟩
          · rw [hsame] at hexpired
            exact Or.inr (Or.inl hexpired)
          · rw [hmarked] at hexpired
            exact Or.inr (Or.inr ⟨hinvalid, hexpired⟩)
  | verifiable ver mReceivedAt => exact (timeDiff_lt_iff hright _).mp hdeletes
  | other HotProperties => exact hright

/-- What is not judged rightly is deleted for nothing. -/
theorem deletes_of_not_rightlyJudged {object : PoolObject} (hwrong : ¬RightlyJudged S object) :
    (∀ s, Deletes S s object) ∧ ¬MayBeRemoved S object := by
  rw [RightlyJudged.eq_def, not_or] at hwrong
  obtain ⟨hunmarked, hwrong⟩ := hwrong
  cases object with
  | transaction tx mReceivedAt =>
      dsimp only at hwrong
      rw [Classical.not_imp] at hwrong
      obtain ⟨hreceipt, hfuture⟩ := hwrong
      refine ⟨fun s => Or.inr ?_, ?_⟩
      · dsimp only
        rw [hreceipt]
        exact timeDiff_of_future hfuture _
      · rintro (hmarked | ⟨blockHeight, hheight, -⟩ | hexpired | ⟨-, hexpired⟩)
        · exact hunmarked hmarked
        · rw [hreceipt] at hheight
          cases hheight
        · exact not_expired_of_future hfuture _ hexpired
        · exact not_expired_of_future hfuture _ hexpired
  | verifiable ver mReceivedAt =>
      refine ⟨fun s => Or.inr (timeDiff_of_future hwrong _), ?_⟩
      rintro (hmarked | hexpired)
      · exact hunmarked hmarked
      · exact not_expired_of_future hwrong _ hexpired
  | other HotProperties =>
      refine ⟨fun s => Or.inr trivial, ?_⟩
      rintro (hmarked | hnever)
      · exact hunmarked hmarked
      · exact hnever

/-! ### What the clean-up leaves -/

theorem visitAll_examined (s : CleanState M D) (l : List PoolEntry) :
    (visitAll S.examine s l).2.examined = s.examined ++ l.map PoolEntry.pointer := by
  induction l generalizing s with
  | nil => simp [visitAll]
  | cons entry l ih => simp [visitAll, ih, examine_examined]

theorem visitAll_sublist (s : CleanState M D) (l : List PoolEntry) :
    ((visitAll S.examine s l).1.map PoolEntry.pointer).Sublist (l.map PoolEntry.pointer) := by
  induction l generalizing s with
  | nil => simp [visitAll]
  | cons entry l ih =>
      rw [visitAll]
      cases hvisit : (S.examine s entry).1 with
      | none => exact (ih _).cons _
      | some kept =>
          simp only [Option.toList_some, List.cons_append, List.nil_append, List.map_cons]
          rw [(examine_of_kept hvisit).1]
          exact (ih _).cons_cons _

theorem exists_of_mem_visitAll {s : CleanState M D} {l : List PoolEntry} {kept : PoolEntry}
    (hkept : kept ∈ (visitAll S.examine s l).1) :
    ∃ entry ∈ l, kept.pointer = entry.pointer ∧ (kept.object.IsTransaction ↔ entry.object.IsTransaction) := by
  induction l generalizing s with
  | nil => exact absurd hkept List.not_mem_nil
  | cons entry l ih =>
      rcases List.mem_append.mp hkept with hfirst | hrest
      · exact ⟨entry, List.mem_cons_self, examine_of_kept (Option.mem_toList.mp hfirst)⟩
      · obtain ⟨other, hother, hsame⟩ := ih hrest
        exact ⟨other, List.mem_cons_of_mem _ hother, hsame⟩

/-- An object that a turn looks at is left, unless that turn deletes it. -/
theorem left_iff_of_visitAll {s : CleanState M D} {l : List PoolEntry} (hdistinct : (l.map PoolEntry.pointer).Nodup)
    {entry : PoolEntry} (hentry : entry ∈ l) :
    ∃ s', entry.pointer ∈ (visitAll S.examine s l).1.map PoolEntry.pointer ↔ ¬Deletes S s' entry.object := by
  induction l generalizing s with
  | nil => exact absurd hentry List.not_mem_nil
  | cons first l ih =>
      rw [List.map_cons, List.nodup_cons] at hdistinct
      simp only [visitAll, List.map_append, List.mem_append]
      rcases List.mem_cons.mp hentry with rfl | hrest
      · refine ⟨_, Iff.trans ?_ (not_congr (examine_fst_eq_none_iff (s := s)))⟩
        have hlater : ¬entry.pointer ∈ (visitAll S.examine (S.examine s entry).2 l).1.map PoolEntry.pointer :=
          fun hmem => hdistinct.1 ((visitAll_sublist _ _).mem hmem)
        cases hvisit : (S.examine s entry).1 with
        | none => simpa using hlater
        | some kept => simp [(examine_of_kept hvisit).1]
      · obtain ⟨s', hs'⟩ := @ih (S.examine s first).2 hdistinct.2 hrest
        refine ⟨s', Iff.trans ?_ hs'⟩
        have hother : first.pointer ≠ entry.pointer := fun hsame =>
          hdistinct.1 (hsame ▸ List.mem_map_of_mem hrest)
        cases hvisit : (S.examine s first).1 with
        | none => simp
        | some kept => simp [(examine_of_kept hvisit).1, Ne.symm hother]

variable (S) in
/-- The object behind the first one, where that is deleted. -/
def PassedOver (manager : M) (mMemPool : List PoolEntry) (entry : PoolEntry) : Prop :=
  ∃ first rest, mMemPool = first :: entry :: rest ∧
    Deletes S { manager, examined := [first.pointer] } first.object

/-- What the clean-up does to a pool. -/
structure CleanUp (S : PoolServices M D) (manager : M) (mMemPool : List PoolEntry)
    (cleaned : List PoolEntry × CleanState M D) : Prop where
  sublist : (cleaned.1.map PoolEntry.pointer).Sublist (mMemPool.map PoolEntry.pointer)
  kind : ∀ kept ∈ cleaned.1, ∃ entry ∈ mMemPool, kept.pointer = entry.pointer ∧
    (kept.object.IsTransaction ↔ entry.object.IsTransaction)
  passed : ∀ entry, PassedOver S manager mMemPool entry →
    entry ∈ cleaned.1 ∧ entry.pointer ∉ cleaned.2.examined
  looked : ∀ entry ∈ mMemPool, ¬PassedOver S manager mMemPool entry →
    cleaned.2.examined.count entry.pointer = 1 ∧
      ∃ s', entry.pointer ∈ cleaned.1.map PoolEntry.pointer ↔ ¬Deletes S s' entry.object

theorem cleanUp_of_deleted {manager : M} {first second : PoolEntry} {l : List PoolEntry}
    (hdistinct : ((first :: second :: l).map PoolEntry.pointer).Nodup)
    (hdeleted : (S.examine { manager } first).1 = none) :
    CleanUp S manager (first :: second :: l) (S.cleanMemPool manager (first :: second :: l)) := by
  have hdeletes := examine_fst_eq_none_iff.mp hdeleted
  rw [PoolServices.cleanMemPool, loop_first_erased (fun i hi => decide_eq_true hi) rfl hdeleted]
  have hexamined : (visitAll S.examine (S.examine { manager } first).2 l).2.examined =
      first.pointer :: l.map PoolEntry.pointer := by
    rw [visitAll_examined, examine_examined]
    rfl
  rw [List.map_cons, List.map_cons, List.nodup_cons, List.nodup_cons, List.mem_cons, not_or] at hdistinct
  obtain ⟨⟨hne, hfirst⟩, hsecond, hl⟩ := hdistinct
  constructor
  · exact ((visitAll_sublist _ l).cons_cons second.pointer).cons first.pointer
  · intro kept hkept
    rcases List.mem_cons.mp hkept with rfl | hrest
    · exact ⟨kept, by simp, rfl, Iff.rfl⟩
    · obtain ⟨entry, hentry, hsame⟩ := exists_of_mem_visitAll hrest
      exact ⟨entry, by simp [hentry], hsame⟩
  · rintro entry ⟨first', rest, heq, -⟩
    obtain ⟨-, rfl, -⟩ : first = first' ∧ second = entry ∧ l = rest := by simpa using heq
    refine ⟨List.mem_cons_self, ?_⟩
    rw [hexamined, List.mem_cons, not_or]
    exact ⟨fun h => hne h.symm, hsecond⟩
  · intro entry hentry hlooked
    rw [hexamined]
    rcases List.mem_cons.mp hentry with rfl | hentry
    · refine ⟨by simp [List.count_eq_zero_of_not_mem hfirst], _, iff_of_false ?_ (not_not_intro hdeletes)⟩
      rw [List.map_cons, List.mem_cons, not_or]
      exact ⟨hne, fun hmem => hfirst ((visitAll_sublist _ l).mem hmem)⟩
    · rcases List.mem_cons.mp hentry with rfl | hrest
      · exact absurd ⟨first, l, rfl, hdeletes⟩ hlooked
      · have hmem := List.mem_map_of_mem (f := PoolEntry.pointer) hrest
        have hfirst' : first.pointer ≠ entry.pointer := fun h => hfirst (h ▸ hmem)
        have hsecond' : entry.pointer ≠ second.pointer := fun h => hsecond (h ▸ hmem)
        obtain ⟨s', hs'⟩ := left_iff_of_visitAll (S := S) (s := (S.examine { manager } first).2) hl hrest
        refine ⟨by rw [List.count_cons_of_ne hfirst', List.count_eq_one_of_mem hl hmem], s', ?_⟩
        rw [List.map_cons, List.mem_cons, or_iff_right hsecond']
        exact hs'

theorem cleanUp_of_visitAll {manager : M} {mMemPool : List PoolEntry}
    (hdistinct : (mMemPool.map PoolEntry.pointer).Nodup)
    (hcleaned : S.cleanMemPool manager mMemPool = visitAll S.examine { manager } mMemPool)
    (hpassed : ∀ entry, ¬PassedOver S manager mMemPool entry) :
    CleanUp S manager mMemPool (S.cleanMemPool manager mMemPool) := by
  rw [hcleaned]
  have hexamined : (visitAll S.examine { manager } mMemPool).2.examined = mMemPool.map PoolEntry.pointer := by
    rw [visitAll_examined]
    rfl
  constructor
  · exact visitAll_sublist _ _
  · exact fun kept hkept => exists_of_mem_visitAll hkept
  · exact fun entry hentry => absurd hentry (hpassed entry)
  · intro entry hentry _
    rw [hexamined]
    exact ⟨List.count_eq_one_of_mem hdistinct (List.mem_map_of_mem hentry), left_iff_of_visitAll hdistinct hentry⟩

theorem cleanMemPool_spec (manager : M) (mMemPool : MemPool) :
    CleanUp S manager mMemPool.entries (S.cleanMemPool manager mMemPool.entries) := by
  obtain ⟨entries, hdistinct⟩ := mMemPool
  have hback : ∀ i, 0 < i → decide (0 < i) = true := fun i hi => decide_eq_true hi
  cases entries with
  | nil =>
      refine cleanUp_of_visitAll hdistinct ?_ ?_
      · have hempty : ([] : List PoolEntry).length ≤ 0 := Nat.le_refl 0
        rw [PoolServices.cleanMemPool, loop_of_length_le hempty, visitAll]
      · rintro entry ⟨first, rest, heq, -⟩
        cases heq
  | cons first rest =>
      cases hvisit : (S.examine { manager } first).1 with
      | some kept =>
          refine cleanUp_of_visitAll hdistinct ?_ ?_
          · rw [PoolServices.cleanMemPool, loop_first_kept hback hvisit, visitAll, hvisit]
            rfl
          · rintro entry ⟨first', rest', heq, hdeletes⟩
            obtain rfl := (List.cons.inj heq).1
            have hdeleted := (examine_fst_eq_none_iff (s := { manager })).mpr hdeletes
            rw [hvisit] at hdeleted
            cases hdeleted
      | none =>
          cases rest with
          | nil =>
              refine cleanUp_of_visitAll hdistinct ?_ ?_
              · rw [PoolServices.cleanMemPool, loop_single_erased hvisit, visitAll, hvisit]
                rfl
              · rintro entry ⟨first', rest', heq, -⟩
                cases (List.cons.inj heq).2
          | cons second l => exact cleanUp_of_deleted hdistinct hvisit

/-! ### Cleaning well -/

/-- No object that was marked is left, every object that there is no reason to remove is left, in the order of the
pool, and each transaction that is left was looked at once. -/
structure CleansWell (S : PoolServices M D) (manager : M) (mMemPool : List PoolEntry) : Prop where
  marked : ∀ entry ∈ mMemPool, entry.object.Marked →
    entry.pointer ∉ (S.cleanMemPool manager mMemPool).1.map PoolEntry.pointer
  others : ∀ entry ∈ mMemPool, ¬MayBeRemoved S entry.object →
    entry.pointer ∈ (S.cleanMemPool manager mMemPool).1.map PoolEntry.pointer
  ordered : ((S.cleanMemPool manager mMemPool).1.map PoolEntry.pointer).Sublist (mMemPool.map PoolEntry.pointer)
  once : ∀ entry ∈ (S.cleanMemPool manager mMemPool).1, entry.object.IsTransaction →
    (S.cleanMemPool manager mMemPool).2.examined.count entry.pointer = 1

/-- The object behind a first one that is deleted is an unmarked verifiable or of another type, and all others are
judged rightly. -/
structure CleanableWell (S : PoolServices M D) (manager : M) (mMemPool : List PoolEntry) : Prop where
  passed : ∀ entry, PassedOver S manager mMemPool entry → ¬entry.object.Marked ∧ ¬entry.object.IsTransaction
  looked : ∀ entry ∈ mMemPool, ¬PassedOver S manager mMemPool entry → RightlyJudged S entry.object

theorem cleansWell_iff (manager : M) (mMemPool : MemPool) :
    CleansWell S manager mMemPool.entries ↔ CleanableWell S manager mMemPool.entries := by
  have hspec := cleanMemPool_spec (S := S) manager mMemPool
  constructor
  · intro hwell
    refine ⟨fun entry hpassed => ?_, fun entry hentry hlooked => ?_⟩
    · obtain ⟨hleft, hunseen⟩ := hspec.passed entry hpassed
      obtain ⟨first, rest, heq, -⟩ := id hpassed
      refine ⟨fun hmarked => ?_, fun htransaction => ?_⟩
      · exact hwell.marked entry (by simp [heq]) hmarked (List.mem_map_of_mem hleft)
      · exact absurd (hwell.once entry hleft htransaction) (by simp [List.count_eq_zero_of_not_mem hunseen])
    · by_contra hwrong
      obtain ⟨hdeletes, hkeep⟩ := deletes_of_not_rightlyJudged hwrong
      obtain ⟨-, s', hs'⟩ := hspec.looked entry hentry hlooked
      exact hs'.mp (hwell.others entry hentry hkeep) (hdeletes s')
  · intro hable
    refine ⟨fun entry hentry hmarked hleft => ?_, fun entry hentry hkeep => ?_, hspec.sublist,
      fun kept hkept htransaction => ?_⟩
    · by_cases hpassed : PassedOver S manager mMemPool.entries entry
      · exact (hable.passed entry hpassed).1 hmarked
      · obtain ⟨-, s', hs'⟩ := hspec.looked entry hentry hpassed
        exact hs'.mp hleft (Or.inl hmarked)
    · by_cases hpassed : PassedOver S manager mMemPool.entries entry
      · exact List.mem_map_of_mem (hspec.passed entry hpassed).1
      · obtain ⟨-, s', hs'⟩ := hspec.looked entry hentry hpassed
        exact hs'.mpr fun hdeletes => hkeep (mayBeRemoved_of_deletes (hable.looked entry hentry hpassed) hdeletes)
    · obtain ⟨entry, hentry, hpointer, hkind⟩ := hspec.kind kept hkept
      rw [hpointer]
      refine (hspec.looked entry hentry fun hpassed => ?_).1
      exact (hable.passed entry hpassed).2 (hkind.mp htransaction)

end Cleaning

/-! ### Removal by hash -/

section Removal

variable (S : PoolServices M D) (transID : Bytes)

/-- The entry is the transaction of this hash. -/
def HasHash (entry : PoolEntry) : Prop :=
  match entry.object with
  | .transaction tx _ => S.getHash tx = transID
  | _ => False

instance : DecidablePred (HasHash S transID) := fun entry => by
  unfold HasHash
  cases entry.object <;> infer_instance

/-- The entry is a transaction whose hash starts with these bytes. -/
def hashStartsWith (entry : PoolEntry) : Bool :=
  match entry.object with
  | .transaction tx _ => (S.getHash tx).take transID.length = transID
  | _ => false

/-- Exactly the transactions of the hash are removed, and whether there was one is answered. -/
def RemovesExactly (mMemPool : List PoolEntry) : Prop :=
  ∃ found, S.removeTransactionFromMemPool mMemPool transID =
      .ok (found, mMemPool.filter fun entry => ¬HasHash S transID entry) ∧
    (found = true ↔ ∃ entry ∈ mMemPool, HasHash S transID entry)

/-- An identifier of 32 bytes has no two transactions that are neighbours, a shorter one is the beginning of no hash,
and for a longer one there are no transactions at all. -/
structure RemovableExactly (mMemPool : List PoolEntry) : Prop where
  exact : transID.length = 32 → mMemPool.IsChain fun entry next =>
    ¬(HasHash S transID entry ∧ HasHash S transID next)
  short : transID ≠ [] → transID.length < 32 → ∀ entry ∈ mMemPool, hashStartsWith S transID entry = false
  long : 32 < transID.length → ∀ entry ∈ mMemPool, ¬entry.object.IsTransaction

variable {S transID}

theorem hasHash_iff {entry : PoolEntry} (hlength : transID.length = 32) :
    HasHash S transID entry ↔ hashStartsWith S transID entry = true := by
  obtain ⟨pointer, object⟩ := entry
  cases object with
  | transaction tx mReceivedAt =>
      have htake : (S.getHash tx).take transID.length = S.getHash tx := by
        rw [hlength, ← S.getHash_length tx, List.take_length]
      simp [HasHash, hashStartsWith, htake]
  | verifiable ver mReceivedAt => simp [HasHash, hashStartsWith]
  | other HotProperties => simp [HasHash, hashStartsWith]

theorem not_hasHash {entry : PoolEntry} (hlength : transID.length ≠ 32) : ¬HasHash S transID entry := by
  obtain ⟨pointer, object⟩ := entry
  cases object with
  | transaction tx mReceivedAt =>
      rintro (rfl : S.getHash tx = transID)
      exact hlength (S.getHash_length tx)
  | verifiable ver mReceivedAt => exact id
  | other HotProperties => exact id

theorem compareHash_of_le (hle : transID.length ≤ 32) (found : Bool) (entry : PoolEntry) :
    S.compareHash transID (.ok found) entry =
      if hashStartsWith S transID entry then (none, .ok true) else (some entry, .ok found) := by
  obtain ⟨pointer, object⟩ := entry
  cases object with
  | transaction tx mReceivedAt =>
      have hreads : ¬((S.getHash tx).length < transID.length ∨ transID.length < transID.length) := by
        rw [S.getHash_length]
        omega
      simp only [PoolServices.compareHash, memcmpEq, if_neg hreads, hashStartsWith, List.take_length]
      by_cases hstarts : (S.getHash tx).take transID.length = transID
      · simp [hstarts]
      · simp [hstarts]
  | verifiable ver mReceivedAt => rfl
  | other HotProperties => rfl

theorem visitSkipping_of_le (hle : transID.length ≤ 32) (found : Bool) (l : List PoolEntry) :
    visitSkipping (S.compareHash transID) (.ok found) l =
      (skipFilter (hashStartsWith S transID) l, .ok (found || l.any (hashStartsWith S transID))) := by
  induction l using skipFilter.induct (hashStartsWith S transID) generalizing found with
  | case1 => simp [visitSkipping, skipFilter]
  | case2 entry hstarts => simp [visitSkipping, skipFilter, compareHash_of_le hle, hstarts]
  | case3 entry hstarts => simp [visitSkipping, skipFilter, compareHash_of_le hle, hstarts]
  | case4 entry next l hstarts ih =>
      simp [visitSkipping, skipFilter, compareHash_of_le hle, hstarts, ih]
  | case5 entry next l hstarts ih =>
      simp [visitSkipping, skipFilter, compareHash_of_le hle, hstarts, ih]

theorem compareHash_of_fault (e : Fault) (entry : PoolEntry) :
    S.compareHash transID (.error e) entry = (some entry, .error e) := by
  rw [PoolServices.compareHash]
  intros
  simp_all

theorem visitSkipping_of_fault (e : Fault) (l : List PoolEntry) :
    visitSkipping (S.compareHash transID) (.error e) l = (l, .error e) := by
  induction l with
  | nil => rfl
  | cons entry l ih =>
      cases l with
      | nil => simp [visitSkipping, compareHash_of_fault]
      | cons next l => simp [visitSkipping, compareHash_of_fault, ih]

theorem compareHash_of_gt (hgt : 32 < transID.length) (found : Bool) (entry : PoolEntry) :
    (¬entry.object.IsTransaction ∧ S.compareHash transID (.ok found) entry = (some entry, .ok found)) ∨
      entry.object.IsTransaction ∧ S.compareHash transID (.ok found) entry = (some entry, .error .outOfRange) := by
  obtain ⟨pointer, object⟩ := entry
  cases object with
  | transaction tx mReceivedAt =>
      have hover : (S.getHash tx).length < transID.length ∨ transID.length < transID.length := by
        rw [S.getHash_length]
        exact Or.inl hgt
      refine Or.inr ⟨trivial, ?_⟩
      simp only [PoolServices.compareHash, memcmpEq, if_pos hover]
  | verifiable ver mReceivedAt => exact Or.inl ⟨id, rfl⟩
  | other HotProperties => exact Or.inl ⟨id, rfl⟩

/-- Beyond 32 bytes the first transaction is read out of range. -/
theorem visitSkipping_of_gt (hgt : 32 < transID.length) (found : Bool) (l : List PoolEntry) :
    ((∀ entry ∈ l, ¬entry.object.IsTransaction) ∧
        visitSkipping (S.compareHash transID) (.ok found) l = (l, .ok found)) ∨
      (∃ entry ∈ l, entry.object.IsTransaction) ∧
        visitSkipping (S.compareHash transID) (.ok found) l = (l, .error .outOfRange) := by
  induction l with
  | nil => exact Or.inl ⟨by simp, rfl⟩
  | cons entry l ih =>
      rcases compareHash_of_gt (S := S) hgt found entry with ⟨hother, hvisit⟩ | ⟨htransaction, hvisit⟩
      · rcases ih with ⟨hnone, hrest⟩ | ⟨⟨other, hmem, htransaction⟩, hrest⟩
        · refine Or.inl ⟨?_, ?_⟩
          · rintro other (_ | ⟨_, hmem⟩)
            · exact hother
            · exact hnone other hmem
          · cases l with
            | nil => simp [visitSkipping, hvisit]
            | cons next l => simp [visitSkipping, hvisit, hrest]
        · refine Or.inr ⟨⟨other, List.mem_cons_of_mem _ hmem, htransaction⟩, ?_⟩
          cases l with
          | nil => simp [visitSkipping] at hrest
          | cons next l => simp [visitSkipping, hvisit, hrest]
      · refine Or.inr ⟨⟨entry, List.mem_cons_self, htransaction⟩, ?_⟩
        cases l with
        | nil => simp [visitSkipping, hvisit]
        | cons next l => simp [visitSkipping, hvisit, visitSkipping_of_fault]

theorem removeTransactionFromMemPool_eq (hne : transID ≠ []) (mMemPool : List PoolEntry) :
    S.removeTransactionFromMemPool mMemPool transID =
      (visitSkipping (S.compareHash transID) (Except.ok false) mMemPool).2.map fun found =>
        (found, (visitSkipping (S.compareHash transID) (Except.ok false) mMemPool).1) := by
  have hloop : loop (S.compareHash transID) (fun _ => false) mMemPool 0 (Except.ok false) =
      visitSkipping (S.compareHash transID) (Except.ok false) mMemPool :=
    loop_visitSkipping (fun _ => rfl) [] mMemPool (Except.ok false)
  rw [PoolServices.removeTransactionFromMemPool, if_neg (by simpa using hne), hloop]

/-- An ID that is too short is no hash, but the beginning of some. -/
theorem removesExactly_of_short (hne : transID ≠ []) (hlt : transID.length < 32) (mMemPool : List PoolEntry) :
    RemovesExactly S transID mMemPool ↔ RemovableExactly S transID mMemPool := by
  have hnone : ∀ entry, ¬HasHash S transID entry := fun entry => not_hasHash (by omega)
  rw [RemovesExactly, removeTransactionFromMemPool_eq hne, visitSkipping_of_le (by omega)]
  simp only [hnone, Bool.false_or, and_false, exists_false, iff_false, not_false_eq_true, decide_true,
    List.filter_true, Except.map, Except.ok.injEq, Prod.mk.injEq]
  constructor
  · rintro ⟨found, ⟨rfl, -⟩, hfound⟩
    refine ⟨fun h => absurd h (by omega), fun _ _ entry hentry => ?_, fun h => absurd h (by omega)⟩
    simpa using List.any_eq_false.mp (by simpa using hfound) entry hentry
  · intro hable
    have hshort := hable.short hne hlt
    refine ⟨false, ⟨by simpa using hshort, ?_⟩, by simp⟩
    have hchain : mMemPool.IsChain fun a b =>
        ¬(hashStartsWith S transID a = true ∧ hashStartsWith S transID b = true) :=
      (List.pairwise_of_forall_mem_list fun a ha b _ h => by simp [hshort a ha] at h).isChain
    rw [(skipFilter_eq_filter_iff _ _).mpr hchain, List.filter_eq_self]
    exact fun entry hentry => by simp [hshort entry hentry]

/-- An ID of the right length is compared as a hash; the object behind a removed one is passed over. -/
theorem removesExactly_of_exact (heq : transID.length = 32) (mMemPool : List PoolEntry) :
    RemovesExactly S transID mMemPool ↔ RemovableExactly S transID mMemPool := by
  have hne : transID ≠ [] := List.ne_nil_of_length_pos (by omega)
  have hiff : ∀ entry, HasHash S transID entry ↔ hashStartsWith S transID entry = true :=
    fun entry => hasHash_iff heq
  have hfilter : (mMemPool.filter fun entry => ¬HasHash S transID entry) =
      mMemPool.filter fun entry => !hashStartsWith S transID entry :=
    List.filter_congr fun entry _ => by simp [hiff]
  have hchain : RemovableExactly S transID mMemPool ↔ mMemPool.IsChain fun a b =>
      ¬(hashStartsWith S transID a = true ∧ hashStartsWith S transID b = true) := by
    simp only [← hiff]
    exact ⟨fun hable => hable.exact heq, fun hchain => ⟨fun _ => hchain, by omega, by omega⟩⟩
  rw [RemovesExactly, removeTransactionFromMemPool_eq hne, hchain, ← skipFilter_eq_filter_iff,
    visitSkipping_of_le (by omega), hfilter]
  simp only [Except.map, Bool.false_or, Except.ok.injEq, Prod.mk.injEq, hiff]
  constructor
  · rintro ⟨found, ⟨-, hleft⟩, -⟩
    exact hleft
  · intro hleft
    exact ⟨_, ⟨rfl, hleft⟩, List.any_eq_true⟩

/-- An ID that is too long is compared with what is behind the hash of the first transaction. -/
theorem removesExactly_of_long (hgt : 32 < transID.length) (mMemPool : List PoolEntry) :
    RemovesExactly S transID mMemPool ↔ RemovableExactly S transID mMemPool := by
  have hne : transID ≠ [] := List.ne_nil_of_length_pos (by omega)
  have hnone : ∀ entry, ¬HasHash S transID entry := fun entry => not_hasHash (by omega)
  rw [RemovesExactly, removeTransactionFromMemPool_eq hne]
  rcases visitSkipping_of_gt (S := S) hgt false mMemPool with
    ⟨hothers, hvisit⟩ | ⟨⟨entry, hentry, hkind⟩, hvisit⟩
  · refine iff_of_true ⟨false, ?_, by simp [hnone]⟩ ⟨by omega, by omega, fun _ => hothers⟩
    rw [hvisit]
    simp [Except.map, hnone]
  · refine iff_of_false ?_ fun hable => hable.long hgt entry hentry hkind
    rintro ⟨found, hfound, -⟩
    rw [hvisit] at hfound
    cases hfound

theorem removesExactly_iff (mMemPool : List PoolEntry) :
    RemovesExactly S transID mMemPool ↔ RemovableExactly S transID mMemPool := by
  by_cases hne : transID = []
  · subst hne
    have hnone : ∀ entry, ¬HasHash S [] entry := fun entry => not_hasHash (by simp)
    refine iff_of_true ⟨false, ?_, by simp [hnone]⟩ ⟨by simp, by simp, by simp⟩
    simp [PoolServices.removeTransactionFromMemPool, hnone]
  · rcases Nat.lt_trichotomy transID.length 32 with hlt | heq | hgt
    · exact removesExactly_of_short hne hlt mMemPool
    · exact removesExactly_of_exact heq mMemPool
    · exact removesExactly_of_long hgt mMemPool

/-- The removals do what they should exactly under these conditions. -/
theorem memPoolRemovals_iff (S : PoolServices M D) (manager : M) (mMemPool : MemPool) :
    (CleansWell S manager mMemPool.entries ↔ CleanableWell S manager mMemPool.entries) ∧
      ∀ transID, RemovesExactly S transID mMemPool.entries ↔ RemovableExactly S transID mMemPool.entries :=
  ⟨cleansWell_iff manager mMemPool, fun _ => removesExactly_iff mMemPool.entries⟩

end Removal

/-! ### Two marked objects -/

/-- A node that keeps no descriptions, a day after its clock was started. -/
def samplePoolServices : PoolServices Unit Unit where
  toNodeServices := sampleServices
  ledger := sampleLedger
  getHash tx := sampleServices.getHash tx.toCTransaction
  getHash_length _ := fixedBytes_length ..
  currentTime := 86400
  currentTime_ge := UInt64.le_refl 86400
  getCachedHeight := 0
  getCachedKeyHeight := 0
  getTransactionInfoByReceiptID _ := none
  getMemPoolTXMeta _ _ := none
  createTransactionDescription _ _ := (none, ())
  addMemPoolTXMeta _ _ _ := ()
  getValue _ _ := 0
  getLastPreValidation _ _ := 0
  setLastPreValidationResult _ _ _ := ()
  time _ := 0

def markedTransaction (pointer : ℕ) : PoolEntry := ⟨pointer, .transaction (sampleTransaction 1).markForDeletion 0⟩

/-- Of two marked transactions the second is left, and the first byte of its hash removes a transaction. -/
theorem removals_fail_marked :
    ¬CleansWell samplePoolServices () [markedTransaction 0, markedTransaction 1] ∧
      ¬RemovesExactly samplePoolServices [1] [markedTransaction 0] := by
  constructor
  · let mMemPool : MemPool := ⟨[markedTransaction 0, markedTransaction 1], by decide⟩
    refine fun hwell => ((cleansWell_iff () mMemPool).mp hwell).passed (markedTransaction 1) ?_ |>.1 (Or.inl rfl)
    exact ⟨markedTransaction 0, [], rfl, Or.inl (Or.inl rfl)⟩
  · intro hexact
    have hshort := ((removesExactly_iff _).mp hexact).short (by decide) (by decide) (markedTransaction 0) (by simp)
    exact absurd hshort (by decide)

end Gridnet
