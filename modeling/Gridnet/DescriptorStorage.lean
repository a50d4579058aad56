import Gridnet.PollStorage
import Gridnet.AccessEntries

/-! Security descriptors as they are packed and read back. Packing caches the packed extensions in the
descriptor, and what is cached is packed again where no extension is set: what a descriptor comes back as depends
on the calls before. -/

namespace Gridnet

/-! ### Access entries -/

/-- The byte of the flags, the first one lowest. -/
def AEFlags.getNr (flags : AEFlags) : UInt8 :=
  .ofBitVec (BitVec.ofBoolListLE [flags.mRead, flags.mWrite, flags.mExecute, flags.mAssets, flags.mRemoval,
    flags.mIsPollPermission, flags.mOwnership, flags.mIsDynamicEntry])

def AEFlags.ofByte (byte : UInt8) : AEFlags where
  mRead := byte.toBitVec.getLsbD 0
  mWrite := byte.toBitVec.getLsbD 1
  mExecute := byte.toBitVec.getLsbD 2
  mAssets := byte.toBitVec.getLsbD 3
  mRemoval := byte.toBitVec.getLsbD 4
  mIsPollPermission := byte.toBitVec.getLsbD 5
  mOwnership := byte.toBitVec.getLsbD 6
  mIsDynamicEntry := byte.toBitVec.getLsbD 7

/-- The polls an entry is about are packed in a sequence of their own inside the one that is always there. -/
def CAccessEntry.getPackedData (codec : DerCodec) (entry : CAccessEntry) : Bytes :=
  codec.der (.sequence [.integer 2, .sequence [.octets [entry.mFlags.getNr], .octets entry.mSDID,
    .sequence (if entry.mPollIDs.length = 0 then []
      else [.sequence (entry.mPollIDs.map fun id => .integer id.toNat)])]])

/-- A sequence of numbers that `decode(size_t &)` reads. -/
def smallIntegers : List Asn1 → Option (List UInt64)
  | [] => some []
  | .integer n :: objects => if n ≥ 2 ^ 32 then none else (smallIntegers objects).map (.ofNat n :: ·)
  | _ :: _ => none

/-- The polls of an entry of version 2, which may be left out. -/
def CAccessEntry.readPolls : List Asn1 → Option (List UInt64)
  | [] => some []
  | .sequence ids :: _ => smallIntegers ids
  | _ :: _ => none

/-- `none` for the null pointer. An entry of an unknown version is one as it is constructed, with zero in the bits
the constructor leaves unwritten. -/
def CAccessEntry.instantiate (codec : DerCodec) (packedData : Bytes) : Option CAccessEntry :=
  match codec.ber packedData with
  | some (.sequence (.integer sourceVersion :: .sequence fields :: _)) =>
      if sourceVersion ≥ 2 ^ 32 then none
      else if sourceVersion = 1 ∨ sourceVersion = 2 then match fields with
        | .octets [flags] :: .octets sdID :: rest =>
            (if sourceVersion = 2 then CAccessEntry.readPolls rest else some []).map fun ids =>
              { mSDID := sdID, mFlags := .ofByte flags, mPollIDs := ids }
        | _ => none
      else some (CAccessEntry.construct {} [] false true false false)
  | _ => none

/-! ### Descriptors -/

/-- A descriptor of version 3 as it is packed, with the byte of its flags; by default everyone may read and
execute. -/
structure StoredDescriptor where
  mVersion : UInt64 := 3
  mPollExt : Option StoredPollFile := none
  mFlags : UInt8 := 6
  mOwner : Bytes := []
  mExtensionBytes : Bytes := []
  mAccessEntries : List CAccessEntry := []
  mVersion_eq : mVersion = 3 := by rfl

namespace StoredDescriptor

def setPollExt (desc : StoredDescriptor) (pollExt : Option StoredPollFile) : StoredDescriptor :=
  { desc with mPollExt := pollExt }

def setExtensionBytes (desc : StoredDescriptor) (bytes : Bytes) : StoredDescriptor :=
  { desc with mExtensionBytes := bytes }

def setOwner (desc : StoredDescriptor) (id : Bytes) : StoredDescriptor := { desc with mOwner := id }

def addACE (desc : StoredDescriptor) (ACE : Option CAccessEntry) : StoredDescriptor :=
  match ACE with
  | none => desc
  | some ace => { desc with mAccessEntries := addEntry desc.mAccessEntries ace }

/-- Without the bit of the access list, which is the first one, the entries are cleared. -/
def setCRTFlags (desc : StoredDescriptor) (flags : UInt8) : StoredDescriptor :=
  { desc with
    mFlags := flags
    mAccessEntries := if flags.toBitVec.getLsbD 0 then desc.mAccessEntries else [] }

/-- An extension that is set is packed, and its bytes are kept. -/
def packExtensions (codec : DerCodec) (desc : StoredDescriptor) : StoredDescriptor :=
  match desc.mPollExt with
  | none => desc
  | some pollExt =>
      { desc with mExtensionBytes := codec.der (.sequence [.octets (pollExt.getPackedData codec)]) }

/-- The packed descriptor, and the descriptor it leaves. -/
def getPackedData (codec : DerCodec) (desc : StoredDescriptor) : Bytes × StoredDescriptor :=
  let desc := desc.packExtensions codec
  (codec.der (.sequence [.integer desc.mVersion.toNat, .octets [desc.mFlags], .octets desc.mExtensionBytes,
    .octets desc.mOwner, .sequence (desc.mAccessEntries.map fun entry => .octets (entry.getPackedData codec))]),
    desc)

/-- The extensions that are packed in the bytes: of all there are, the first one is that of the polls. `none` where
an exception is thrown. -/
def readExtensions (codec : DerCodec) (bytes : Bytes) : Option (Option StoredPollFile) :=
  if bytes.length = 0 then some none
  else match codec.ber bytes with
    | some (.sequence extensions) => (octetStrings extensions).map fun extTemps =>
        extTemps.head?.bind (StoredPollFile.instantiate codec)
    | _ => none

/-- `none` for the null pointer. Descriptors of the versions 1 and 2 are not read: they begin with a Boolean, which
is not among the objects, and with octets under the tag of a sequence, which is an exception. -/
def instantiate (codec : DerCodec) (packedData : Bytes) : Option StoredDescriptor :=
  if packedData.length = 0 then none
  else match codec.ber packedData with
    | some (.sequence (.integer sourceVersion :: objects)) =>
        if sourceVersion ≥ 2 ^ 32 ∨ sourceVersion = 1 ∨ sourceVersion = 2 then none
        else if sourceVersion = 3 then match objects with
          | .octets [flags] :: .octets extensionBytes :: .octets owner :: .sequence entries :: _ => do
              let pollExt ← readExtensions codec extensionBytes
              let sdIDs ← octetStrings entries
              let mAccessEntries ← sdIDs.mapM (CAccessEntry.instantiate codec)
              some { mPollExt := pollExt, mFlags := flags, mOwner := owner, mExtensionBytes := extensionBytes,
                     mAccessEntries := mAccessEntries }
          | _ => none
        else some {}
    | _ => none

/-- A call of the life of a descriptor. -/
inductive Call where
  | setPollExt (pollExt : Option StoredPollFile)
  | setExtensionBytes (bytes : Bytes)
  | setOwner (id : Bytes)
  | addACE (ACE : Option CAccessEntry)
  | setCRTFlags (flags : UInt8)
  | getPackedData

/-- What a call hands back, where it is bytes, and the descriptor it leaves. -/
def call (codec : DerCodec) (desc : StoredDescriptor) : Call → Option Bytes × StoredDescriptor
  | .setPollExt pollExt => (none, desc.setPollExt pollExt)
  | .setExtensionBytes bytes => (none, desc.setExtensionBytes bytes)
  | .setOwner id => (none, desc.setOwner id)
  | .addACE ACE => (none, desc.addACE ACE)
  | .setCRTFlags flags => (none, desc.setCRTFlags flags)
  | .getPackedData => (some (desc.getPackedData codec).1, (desc.getPackedData codec).2)

/-! ### What is stored is what is there -/

/-- The descriptor decodes to its current state. -/
def Decodes (codec : DerCodec) (desc : StoredDescriptor) : Prop :=
  ∃ loaded, instantiate codec (desc.getPackedData codec).1 = some loaded ∧ loaded.mFlags = desc.mFlags ∧
    loaded.mOwner = desc.mOwner ∧ loaded.mAccessEntries = desc.mAccessEntries ∧ loaded.mPollExt = desc.mPollExt

/-- There is no extension with polls in the bytes. -/
def Extensionless (codec : DerCodec) (bytes : Bytes) : Prop :=
  bytes = [] ∨ ∃ extTemps : List Bytes, codec.ber bytes = some (.sequence (extTemps.map .octets)) ∧
    extTemps.head?.bind (StoredPollFile.instantiate codec) = none

/-- An extension that survives storage, or else none where none is cached. -/
def Fits (codec : DerCodec) (bytes : Bytes) : Option StoredPollFile → Prop
  | none => Extensionless codec bytes
  | some pollExt => pollExt.Storable

structure Storable (codec : DerCodec) (desc : StoredDescriptor) : Prop where
  extension : Fits codec desc.mExtensionBytes desc.mPollExt
  entries : ∀ entry ∈ desc.mAccessEntries, entry.mPollIDs = []

/-- What a call may do to a descriptor that decodes to its state. -/
def Allowed (codec : DerCodec) (desc : StoredDescriptor) : Call → Prop
  | .setPollExt pollExt => Fits codec desc.mExtensionBytes pollExt
  | .setExtensionBytes bytes => desc.mPollExt = none → Extensionless codec bytes
  | .addACE ACE => ∀ ace ∈ ACE, ace.mPollIDs = []
  | _ => True

end StoredDescriptor

/-! ### Entries come back -/

section Entries

variable (codec : DerCodec)

@[simp]
theorem AEFlags.ofByte_getNr (flags : AEFlags) : AEFlags.ofByte flags.getNr = flags := by
  obtain ⟨read, write, execute, assets, removal, poll, ownership, dynamic⟩ := flags
  have hbit : ∀ i, (AEFlags.getNr ⟨read, write, execute, assets, removal, poll, ownership, dynamic⟩).toBitVec.getLsbD i =
      [read, write, execute, assets, removal, poll, ownership, dynamic].getD i false :=
    fun i => BitVec.getLsbD_ofBoolListLE
  simp only [AEFlags.ofByte, hbit]
  rfl

/-- An entry comes back exactly if it is about no polls. -/
theorem CAccessEntry.instantiate_getPackedData (entry : CAccessEntry) :
    CAccessEntry.instantiate codec (entry.getPackedData codec) =
      if entry.mPollIDs = [] then some entry else none := by
  rw [CAccessEntry.instantiate, CAccessEntry.getPackedData, codec.ber_der]
  dsimp only
  rw [if_neg (by decide), if_pos (.inr rfl), if_pos rfl, CAccessEntry.readPolls, AEFlags.ofByte_getNr]
  obtain ⟨sdID, flags, pollIDs⟩ := entry
  cases pollIDs with
  | nil => rfl
  | cons id ids => rfl

end Entries

/-! ### Descriptors come back -/

namespace StoredDescriptor

variable {codec : DerCodec} {desc : StoredDescriptor}

theorem readExtensions_none_iff {bytes : Bytes} :
    readExtensions codec bytes = some none ↔ Extensionless codec bytes := by
  unfold readExtensions Extensionless
  split_ifs with hlength
  · exact iff_of_true rfl (.inl (List.length_eq_zero_iff.mp hlength))
  · rw [or_iff_right fun hnil => hlength (List.length_eq_zero_iff.mpr hnil)]
    constructor
    · intro hread
      split at hread
      case h_1 extensions hber =>
        obtain ⟨extTemps, htemps, hnone⟩ := Option.map_eq_some_iff.mp hread
        rw [octetStrings_eq_some.mp htemps] at hber
        exact ⟨extTemps, hber, hnone⟩
      case h_2 => cases hread
    · rintro ⟨extTemps, hber, hnone⟩
      rw [hber]
      dsimp only
      rw [octetStrings_map, Option.map_some, hnone]

theorem readExtensions_packed (codec : DerCodec) (pollExt : StoredPollFile) :
    readExtensions codec (codec.der (.sequence [.octets (pollExt.getPackedData codec)])) =
      some (StoredPollFile.instantiate codec (pollExt.getPackedData codec)) := by
  have hlength : ¬ (codec.der (.sequence [.octets (pollExt.getPackedData codec)])).length = 0 :=
    fun hnil => codec.der_ne_nil _ (List.length_eq_zero_iff.mp hnil)
  rw [readExtensions, if_neg hlength, codec.ber_der]
  rfl

/-- The extension that is read is the one that is set exactly if what is set and cached fits. -/
theorem readExtensions_iff :
    readExtensions codec (desc.packExtensions codec).mExtensionBytes = some desc.mPollExt ↔
      Fits codec desc.mExtensionBytes desc.mPollExt := by
  unfold packExtensions
  cases hext : desc.mPollExt with
  | none => exact readExtensions_none_iff
  | some pollExt =>
      dsimp only
      rw [readExtensions_packed, Option.some.injEq]
      exact StoredPollFile.instantiate_eq_self_iff codec pollExt

theorem instantiate_getPackedData (codec : DerCodec) (desc : StoredDescriptor) :
    instantiate codec (desc.getPackedData codec).1 =
      if ∀ entry ∈ desc.mAccessEntries, entry.mPollIDs = [] then
        (readExtensions codec (desc.packExtensions codec).mExtensionBytes).map fun pollExt =>
          { desc with mPollExt := pollExt, mExtensionBytes := (desc.packExtensions codec).mExtensionBytes }
      else none := by
  have hfields : (desc.packExtensions codec).mFlags = desc.mFlags ∧
      (desc.packExtensions codec).mOwner = desc.mOwner ∧
      (desc.packExtensions codec).mAccessEntries = desc.mAccessEntries := by
    unfold packExtensions
    split <;> exact ⟨rfl, rfl, rfl⟩
  obtain ⟨hflags, howner, haces⟩ := hfields
  have hlength : ¬ (desc.getPackedData codec).1.length = 0 :=
    fun hnil => codec.der_ne_nil _ (List.length_eq_zero_iff.mp hnil)
  rw [instantiate, if_neg hlength, getPackedData, codec.ber_der]
  dsimp only
  rw [(desc.packExtensions codec).mVersion_eq, if_neg (by decide), if_pos (by decide), hflags, howner, haces,
    octetStrings_map_octets]
  simp only [Option.bind_eq_bind, Option.bind_some,
    mapM_map_ite (CAccessEntry.instantiate_getPackedData codec) desc.mAccessEntries, List.map_id']
  generalize readExtensions codec (desc.packExtensions codec).mExtensionBytes = read
  obtain ⟨_, _, _, _, _, _, rfl⟩ := desc
  cases read with
  | none => split_ifs <;> rfl
  | some pollExt => split_ifs <;> rfl

theorem decodes_iff : desc.Decodes codec ↔ desc.Storable codec := by
  unfold Decodes
  rw [instantiate_getPackedData]
  constructor
  · rintro ⟨loaded, hloaded, -, -, -, hext⟩
    split_ifs at hloaded with hentries
    obtain ⟨pollExt, hread, rfl⟩ := Option.map_eq_some_iff.mp hloaded
    obtain rfl := hext
    exact ⟨readExtensions_iff.mp hread, hentries⟩
  · rintro ⟨hfits, hentries⟩
    rw [if_pos hentries, readExtensions_iff.mpr hfits]
    exact ⟨_, rfl, rfl, rfl, rfl, rfl⟩

/-- A descriptor that is storable stays so exactly if the call is allowed. -/
theorem storable_call_iff (hstorable : desc.Storable codec) (op : Call) :
    (call codec desc op).2.Storable codec ↔ Allowed codec desc op := by
  obtain ⟨hfits, hentries⟩ := hstorable
  cases op with
  | setPollExt pollExt => exact ⟨fun hafter => hafter.extension, fun hallowed => ⟨hallowed, hentries⟩⟩
  | setExtensionBytes bytes =>
      constructor
      · intro hafter hnone
        have hbytes := hafter.extension
        change Fits codec bytes desc.mPollExt at hbytes
        rw [hnone] at hbytes
        exact hbytes
      · intro hallowed
        refine ⟨?_, hentries⟩
        show Fits codec bytes desc.mPollExt
        cases hext : desc.mPollExt with
        | none => exact hallowed hext
        | some pollExt =>
            rw [hext] at hfits
            exact hfits
  | setOwner id => exact iff_of_true ⟨hfits, hentries⟩ trivial
  | addACE ACE =>
      cases ACE with
      | none => exact iff_of_true ⟨hfits, hentries⟩ nofun
      | some ace =>
          constructor
          · rintro hafter _ ⟨rfl⟩
            exact hafter.entries ace mem_addEntry_self
          · intro hallowed
            refine ⟨hfits, ?_⟩
            intro entry hentry
            rcases mem_of_mem_addEntry hentry with rfl | hold
            · exact hallowed _ rfl
            · exact hentries entry hold
  | setCRTFlags flags =>
      refine iff_of_true ⟨hfits, ?_⟩ trivial
      intro entry hentry
      change entry ∈ (if _ then desc.mAccessEntries else []) at hentry
      split_ifs at hentry
      · exact hentries entry hentry
      · cases hentry
  | getPackedData =>
      refine iff_of_true ?_ trivial
      show (desc.packExtensions codec).Storable codec
      unfold packExtensions
      split
      case h_1 => exact ⟨hfits, hentries⟩
      case h_2 pollExt hext =>
        refine ⟨?_, hentries⟩
        show Fits codec _ desc.mPollExt
        rw [hext] at hfits ⊢
        exact hfits

/-- In a run of calls a descriptor decodes to its state all along exactly if it is storable at first and every call
is allowed. -/
theorem decodes_run_iff (codec : DerCodec) (desc : StoredDescriptor) (ops : List Call) :
    (desc.Decodes codec ∧
        Machine.EveryStep (call codec) (fun desc op => (call codec desc op).2.Decodes codec) desc ops) ↔
      desc.Storable codec ∧ Machine.EveryStep (call codec) (Allowed codec) desc ops := by
  rw [decodes_iff]
  apply and_congr_right
  intro hstorable
  have hsame : ∀ (desc : StoredDescriptor) op, desc.Storable codec →
      ((call codec desc op).2.Decodes codec ↔ Allowed codec desc op) := by
    intro desc op hstorable
    rw [decodes_iff]
    exact storable_call_iff hstorable op
  apply Machine.everyStep_iff_of_invariant hsame
  · intro desc op hstorable hallowed
    exact (storable_call_iff hstorable op).mpr hallowed
  · exact hstorable

/-- What packing caches of an extension that is read is not extensionless. -/
theorem not_extensionless_packed {pollExt : StoredPollFile} (hstorable : pollExt.Storable) :
    ¬ Extensionless codec (codec.der (.sequence [.octets (pollExt.getPackedData codec)])) := by
  rw [← readExtensions_none_iff, readExtensions_packed,
    (StoredPollFile.instantiate_eq_self_iff codec pollExt).mpr hstorable]
  exact fun hread => nomatch Option.some.inj hread

theorem not_decodes_removed (codec : DerCodec) {pollExt : StoredPollFile} (hstorable : pollExt.Storable) :
    ¬ (Machine.final (call codec) {} [.setPollExt (some pollExt), .getPackedData, .setPollExt none]).Decodes codec := by
  rw [decodes_iff]
  exact fun hafter => not_extensionless_packed hstorable hafter.extension

/-- An extension that is removed after it was packed once comes back. -/
theorem removed_extension_comes_back :
    ¬ ∀ (desc : StoredDescriptor) (ops : List Call), (Machine.final (call .standard) desc ops).Decodes .standard := by
  intro hdecodes
  have hstorable : StoredPollFile.Storable {} :=
    ⟨rfl, fun _ hpoll => absurd hpoll List.not_mem_nil, fun _ hpoll => absurd hpoll List.not_mem_nil⟩
  exact not_decodes_removed .standard hstorable (hdecodes {} _)

end StoredDescriptor
end Gridnet
