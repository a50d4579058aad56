import Gridnet.RightsModel
import Gridnet.ListUpdate
import Gridnet.Machine

/-! Adding and removing the entries of a security descriptor. `addACE` replaces the entry of an entity and then
appends the new one all the same: the entities stay distinct exactly as long as nobody is entered twice. -/

namespace Gridnet

/-- The loop of `addACE`: the first entry of the entity gives way. -/
def replaceACE (ace : CAccessEntry) : List CAccessEntry → List CAccessEntry
  | [] => []
  | entry :: entries =>
      if ace.mSDID = entry.mSDID then ace :: entries else entry :: replaceACE ace entries

/-- `found` is not set by the loop. -/
def addEntry (entries : List CAccessEntry) (ace : CAccessEntry) : List CAccessEntry :=
  let found := false
  let entries := replaceACE ace entries
  if !found then entries ++ [ace] else entries

namespace CSecDescriptor

def addACE (desc : CSecDescriptor) (ACE : Option CAccessEntry) : Bool × CSecDescriptor :=
  match ACE with
  | none => (false, desc)
  | some ace => (true, { desc with mAccessEntries := addEntry desc.mAccessEntries ace })

def removeACEAtIndex (desc : CSecDescriptor) (ind : UInt64) : Bool × CSecDescriptor :=
  if desc.mAccessEntries.length = 0 then (false, desc)
  else if ind.toNat > desc.mAccessEntries.length - 1 then (false, desc)
  else (true, { desc with mAccessEntries := desc.mAccessEntries.eraseIdx ind.toNat })

/-- A call that changes the entries. -/
inductive EntryCall where
  | addACE (ACE : Option CAccessEntry)
  | removeACEAtIndex (ind : UInt64)

def call (desc : CSecDescriptor) : EntryCall → Bool × CSecDescriptor
  | .addACE ACE => desc.addACE ACE
  | .removeACEAtIndex ind => desc.removeACEAtIndex ind

/-- No entity has two entries. -/
def Distinct (desc : CSecDescriptor) : Prop := (desc.mAccessEntries.map CAccessEntry.mSDID).Nodup

/-- The entry found for an entity. -/
def entryFor (desc : CSecDescriptor) (sdID : Bytes) : Option CAccessEntry :=
  (desc.getACEforEntity sdID).bind fun i => desc.mAccessEntries[i]?

/-- The entries of the other entities. -/
def othersThan (desc : CSecDescriptor) (sdID : Bytes) : List CAccessEntry :=
  desc.mAccessEntries.filter fun entry => entry.mSDID ≠ sdID

/-- What a call has to do: entities stay distinct, the entry that was added is found and the others are as they
were, and an entity whose entry was removed has none. -/
structure SoundCall (desc : CSecDescriptor) (op : EntryCall) : Prop where
  distinct : (desc.call op).2.Distinct
  added : ∀ ace, op = .addACE (some ace) → (desc.call op).2.entryFor ace.mSDID = some ace ∧
    (desc.call op).2.othersThan ace.mSDID = desc.othersThan ace.mSDID
  removed : ∀ ind sdID, op = .removeACEAtIndex ind → desc.getACEforEntity sdID = some ind.toNat →
    (desc.call op).2.entryFor sdID = none

/-- Nobody is entered who has an entry. -/
def EntersNew (desc : CSecDescriptor) (op : EntryCall) : Prop :=
  ∀ ace, op = .addACE (some ace) → desc.entryFor ace.mSDID = none

end CSecDescriptor

/-! ### Lists of entries -/

section Entries

variable {entries : List CAccessEntry} {ace : CAccessEntry}

theorem map_replaceACE : (replaceACE ace entries).map CAccessEntry.mSDID = entries.map CAccessEntry.mSDID := by
  induction entries with
  | nil => rfl
  | cons entry entries ih =>
      rw [replaceACE]
      split_ifs with hsame
      · rw [List.map_cons, List.map_cons, hsame]
      · rw [List.map_cons, List.map_cons, ih]

theorem map_addEntry : (addEntry entries ace).map CAccessEntry.mSDID =
    entries.map CAccessEntry.mSDID ++ [ace.mSDID] := by
  show (replaceACE ace entries ++ [ace]).map _ = _
  rw [List.map_append, map_replaceACE, List.map_singleton]

/-- The new entry is the first one of its entity. -/
theorem find?_addEntry :
    (addEntry entries ace).find? (fun entry => entry.mSDID = ace.mSDID) = some ace := by
  show (replaceACE ace entries ++ [ace]).find? _ = _
  induction entries with
  | nil => exact List.find?_cons_of_pos (decide_eq_true rfl)
  | cons entry entries ih =>
      rw [replaceACE]
      split_ifs with hsame
      · exact List.find?_cons_of_pos (decide_eq_true rfl)
      · rw [List.cons_append, List.find?_cons_of_neg]
        · exact ih
        · rw [decide_eq_true_eq]
          exact fun heq => hsame heq.symm

theorem filter_replaceACE : (replaceACE ace entries).filter (fun entry => entry.mSDID ≠ ace.mSDID) =
    entries.filter fun entry => entry.mSDID ≠ ace.mSDID := by
  induction entries with
  | nil => rfl
  | cons entry entries ih =>
      rw [replaceACE]
      split_ifs with hsame
      · rw [List.filter_cons_of_neg, List.filter_cons_of_neg]
        · simp [hsame]
        · simp
      · rw [List.filter_cons, List.filter_cons, ih]

theorem filter_addEntry : (addEntry entries ace).filter (fun entry => entry.mSDID ≠ ace.mSDID) =
    entries.filter fun entry => entry.mSDID ≠ ace.mSDID := by
  show (replaceACE ace entries ++ [ace]).filter _ = _
  rw [List.filter_append, filter_replaceACE, List.filter_cons_of_neg, List.filter_nil, List.append_nil]
  simp

theorem mem_addEntry_self : ace ∈ addEntry entries ace := by
  show ace ∈ replaceACE ace entries ++ [ace]
  exact List.mem_append_right _ (List.mem_singleton_self _)

theorem mem_of_mem_addEntry {entry : CAccessEntry} (hentry : entry ∈ addEntry entries ace) :
    entry = ace ∨ entry ∈ entries := by
  have hreplaced : ∀ entries, entry ∈ replaceACE ace entries → entry = ace ∨ entry ∈ entries := by
    intro entries
    induction entries with
    | nil => nofun
    | cons first entries ih =>
        rw [replaceACE]
        split_ifs
        · exact fun hmem => (List.mem_cons.mp hmem).imp_right (List.mem_cons_of_mem first)
        · intro hmem
          rcases List.mem_cons.mp hmem with rfl | hrest
          · exact .inr List.mem_cons_self
          · exact (ih hrest).imp_right (List.mem_cons_of_mem first)
  rcases List.mem_append.mp hentry with hold | hnew
  · exact hreplaced entries hold
  · exact .inl (List.mem_singleton.mp hnew)

end Entries

/-! ### Descriptors -/

namespace CSecDescriptor

variable {desc : CSecDescriptor}

theorem entryFor_eq (desc : CSecDescriptor) (sdID : Bytes) :
    desc.entryFor sdID = desc.mAccessEntries.find? fun entry => entry.mSDID = sdID := by
  rw [List.find?_eq_bind_findIdx?_getElem?]
  rfl

theorem entryFor_eq_none {sdID : Bytes} :
    desc.entryFor sdID = none ↔ sdID ∉ desc.mAccessEntries.map CAccessEntry.mSDID := by
  rw [entryFor_eq, List.find?_eq_none, List.mem_map]
  constructor
  · rintro hnone ⟨entry, hentry, hid⟩
    exact hnone entry hentry (decide_eq_true hid)
  · intro hnot entry hentry hid
    exact hnot ⟨entry, hentry, of_decide_eq_true hid⟩

/-- An entry that is found is the only one where entities are distinct. -/
theorem entryFor_removed (hdistinct : desc.Distinct) {ind : UInt64} {sdID : Bytes}
    (hfound : desc.getACEforEntity sdID = some ind.toNat) :
    (desc.removeACEAtIndex ind).2.entryFor sdID = none := by
  obtain ⟨hind, hhere, -⟩ := List.findIdx?_eq_some_iff_getElem.mp hfound
  rw [decide_eq_true_eq] at hhere
  rw [entryFor_eq_none]
  unfold removeACEAtIndex
  rw [if_neg (by omega), if_neg (by omega)]
  show sdID ∉ (desc.mAccessEntries.eraseIdx ind.toNat).map _
  rw [← List.eraseIdx_map, List.mem_eraseIdx_iff_getElem?]
  rintro ⟨j, hne, hother⟩
  have hthis : (desc.mAccessEntries.map CAccessEntry.mSDID)[ind.toNat]? = some sdID := by
    rw [List.getElem?_map, List.getElem?_eq_getElem hind, Option.map_some, hhere]
  have hlength : ind.toNat < (desc.mAccessEntries.map CAccessEntry.mSDID).length := by
    rw [List.length_map]
    exact hind
  exact hne ((List.getElem?_inj hlength hdistinct).mp (hthis.trans hother.symm)).symm

theorem distinct_removed (hdistinct : desc.Distinct) (ind : UInt64) :
    (desc.removeACEAtIndex ind).2.Distinct := by
  unfold removeACEAtIndex
  split_ifs
  · exact hdistinct
  · exact hdistinct
  · exact ((List.eraseIdx_sublist _ _).map _).nodup hdistinct

theorem distinct_added_iff (hdistinct : desc.Distinct) (ace : CAccessEntry) :
    (desc.addACE (some ace)).2.Distinct ↔ desc.entryFor ace.mSDID = none := by
  show ((addEntry _ _).map _).Nodup ↔ _
  rw [map_addEntry, entryFor_eq_none, ← List.concat_eq_append, List.nodup_concat]
  exact and_iff_left hdistinct

/-- A call is sound exactly if it does not enter anybody twice. -/
theorem soundCall_iff (hdistinct : desc.Distinct) (op : EntryCall) :
    desc.SoundCall op ↔ desc.EntersNew op := by
  constructor
  · rintro hsound ace rfl
    exact (distinct_added_iff hdistinct ace).mp hsound.distinct
  · intro hnew
    cases op with
    | addACE ACE =>
        refine ⟨?_, ?_, nofun⟩
        · cases ACE with
          | none => exact hdistinct
          | some ace => exact (distinct_added_iff hdistinct ace).mpr (hnew ace rfl)
        · rintro ace ⟨rfl⟩
          rw [entryFor_eq]
          exact ⟨find?_addEntry, filter_addEntry⟩
    | removeACEAtIndex ind =>
        refine ⟨distinct_removed hdistinct ind, nofun, ?_⟩
        rintro _ sdID ⟨rfl⟩ hfound
        exact entryFor_removed hdistinct hfound

/-- In a run of calls from distinct entities every call is sound exactly if none enters anybody twice. -/
theorem sound_run_iff (hdistinct : desc.Distinct) (ops : List EntryCall) :
    Machine.EveryStep call SoundCall desc ops ↔ Machine.EveryStep call EntersNew desc ops := by
  have hsame : ∀ (desc : CSecDescriptor) op, desc.Distinct → (desc.SoundCall op ↔ desc.EntersNew op) := by
    intro desc op hdistinct
    exact soundCall_iff hdistinct op
  apply Machine.everyStep_iff_of_invariant hsame
  · intro desc op hdistinct hnew
    exact ((soundCall_iff hdistinct op).mpr hnew).distinct
  · exact hdistinct

/-- One entity is entered, and its entry removed. -/
theorem sound_run_once :
    Machine.EveryStep call SoundCall {} [.addACE (some { mSDID := [1], mFlags := {} }), .removeACEAtIndex 0] := by
  have hdistinct : ({} : CSecDescriptor).Distinct := List.nodup_nil
  apply (sound_run_iff hdistinct _).mpr
  refine ⟨?_, nofun, trivial⟩
  rintro _ ⟨⟩
  rfl

/-- An entity that is entered twice keeps the right that is revoked. -/
theorem right_not_revoked :
    ¬ ∀ desc ops, Distinct desc → Machine.EveryStep call SoundCall desc ops := by
  intro hsound
  let ace : CAccessEntry := { mSDID := [1], mFlags := {} }
  have hrun := hsound {} [.addACE (some ace), .addACE (some ace)] List.nodup_nil
  have htwice : (call (call {} (.addACE (some ace))).2 (.addACE (some ace))).2.Distinct := hrun.2.1.distinct
  exact absurd htwice (show ¬ List.Nodup [[(1 : UInt8)], [1]] by decide)

end CSecDescriptor
end Gridnet
