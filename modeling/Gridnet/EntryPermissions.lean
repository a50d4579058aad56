import Gridnet.DescriptorStorage
import Gridnet.Machine

/-! The permissions of an access entry over the calls that grant and revoke them, and the entry as it is stored and
copied with the polls it gives access to. A permission is what was requested last, but for the assets: they are never
revoked, and never granted by the constructor. -/

namespace Gridnet

/-! ### Bits and calls -/

/-- The bits of the flags. -/
inductive Permission where
  | read
  | write
  | execute
  | assets
  | removal
  | pollPermission
  | ownership
  | dynamicEntry
  deriving DecidableEq, Repr

def AEFlags.bit (flags : AEFlags) : Permission → Bool
  | .read => flags.mRead
  | .write => flags.mWrite
  | .execute => flags.mExecute
  | .assets => flags.mAssets
  | .removal => flags.mRemoval
  | .pollPermission => flags.mIsPollPermission
  | .ownership => flags.mOwnership
  | .dynamicEntry => flags.mIsDynamicEntry

def AEFlags.setRead (flags : AEFlags) (allowed : Bool) : AEFlags := { flags with mRead := allowed }

namespace CAccessEntry

def grantRead (entry : CAccessEntry) (doIt : Bool) : CAccessEntry :=
  { entry with mFlags := entry.mFlags.setRead doIt }

def setPermisions (entry : CAccessEntry) (write execute read removal assets : Bool) : CAccessEntry :=
  { entry with
    mFlags := ((((entry.mFlags.setWrite write).setExecute execute).setRead read).setRemoval removal).setAssets assets }

/-- A call that names permissions. -/
inductive PermissionCall where
  | setPermisions (write execute read removal assets : Bool)
  | grantOwnership (doIt : Bool)
  | grantWrite (doIt : Bool)
  | grantRead (doIt : Bool)
  | grantExecute (doIt : Bool)
  | grantAssets (doIt : Bool)
  | grantRemoval (doIt : Bool)
  | setIsDynamic (isIt : Bool)
  deriving DecidableEq, Repr

/-- `setPermisions` answers `true`, the others nothing. -/
def permissionCall (entry : CAccessEntry) : PermissionCall → Option Bool × CAccessEntry
  | .setPermisions write execute read removal assets =>
      (some true, entry.setPermisions write execute read removal assets)
  | .grantOwnership doIt => (none, entry.grantOwnership doIt)
  | .grantWrite doIt => (none, entry.grantWrite doIt)
  | .grantRead doIt => (none, entry.grantRead doIt)
  | .grantExecute doIt => (none, entry.grantExecute doIt)
  | .grantAssets doIt => (none, entry.grantAssets doIt)
  | .grantRemoval doIt => (none, entry.grantRemoval doIt)
  | .setIsDynamic isIt => (none, entry.setIsDynamic isIt)

/-- What a call requests of a permission; `none` where it does not name it. -/
def PermissionCall.requests : PermissionCall → Permission → Option Bool
  | .setPermisions write _ _ _ _, .write => some write
  | .setPermisions _ execute _ _ _, .execute => some execute
  | .setPermisions _ _ read _ _, .read => some read
  | .setPermisions _ _ _ removal _, .removal => some removal
  | .setPermisions _ _ _ _ assets, .assets => some assets
  | .grantOwnership doIt, .ownership => some doIt
  | .grantWrite doIt, .write => some doIt
  | .grantRead doIt, .read => some doIt
  | .grantExecute doIt, .execute => some doIt
  | .grantAssets doIt, .assets => some doIt
  | .grantRemoval doIt, .removal => some doIt
  | .setIsDynamic isIt, .dynamicEntry => some isIt
  | _, _ => none

/-- What the constructor is asked for. -/
def constructorRequests (write read execute assets : Bool) : Permission → Option Bool
  | .write => some write
  | .read => some read
  | .execute => some execute
  | .assets => some assets
  | _ => none

/-! ### What the bits are -/

/-- The requested bit is set, whatever else the call does. -/
theorem bit_permissionCall (entry : CAccessEntry) (op : PermissionCall) {p : Permission} (hp : p ≠ .assets) :
    (entry.permissionCall op).2.mFlags.bit p = (op.requests p).getD (entry.mFlags.bit p) := by
  cases op <;> cases p <;> first | rfl | exact absurd rfl hp

/-- Where the assets are named they are granted. -/
theorem assets_permissionCall (entry : CAccessEntry) (op : PermissionCall) :
    (entry.permissionCall op).2.mFlags.bit .assets =
      ((op.requests .assets).map fun _ => true).getD (entry.mFlags.bit .assets) := by
  cases op <;> rfl

/-- A call does nothing but to the permissions that it names. -/
theorem permissionCall_frame (entry : CAccessEntry) (op : PermissionCall) {p : Permission}
    (hp : op.requests p = none) : (entry.permissionCall op).2.mFlags.bit p = entry.mFlags.bit p := by
  by_cases hassets : p = .assets
  · rw [hassets, assets_permissionCall, ← hassets, hp]
    rfl
  · rw [bit_permissionCall entry op hassets, hp]
    rfl

theorem final_bit (entry : CAccessEntry) (calls : List PermissionCall) {p : Permission} (hp : p ≠ .assets) :
    (Machine.final permissionCall entry calls).mFlags.bit p =
      (Machine.lastRequest (·.requests p) calls).getD (entry.mFlags.bit p) :=
  Machine.reading_final (fun _ => True) (fun entry => entry.mFlags.bit p) (·.requests p)
    (fun entry op _ => ⟨bit_permissionCall entry op hp, trivial⟩) trivial calls

theorem final_assets (entry : CAccessEntry) (calls : List PermissionCall) :
    (Machine.final permissionCall entry calls).mFlags.bit .assets =
      ((Machine.lastRequest (·.requests .assets) calls).map fun _ => true).getD (entry.mFlags.bit .assets) := by
  rw [← Machine.lastRequest_map]
  exact Machine.reading_final (fun _ => True) (fun entry => entry.mFlags.bit .assets) _
    (fun entry op _ => ⟨assets_permissionCall entry op, trivial⟩) trivial calls

/-- The constructor does what it is asked for, but leaves out the assets. -/
theorem bit_construct (memory : AEFlags) (sdID : Bytes) (write read execute assets : Bool) {p : Permission}
    (hp : p ≠ .assets) {b : Bool} (hrequest : constructorRequests write read execute assets p = some b) :
    (construct memory sdID write read execute assets).mFlags.bit p = b := by
  cases p <;> first | exact Option.some.inj hrequest | exact absurd rfl hp | cases hrequest

/-- Every permission is what was requested last, of the calls or else of the constructor. -/
def AsRequested (entry : CAccessEntry) (constructed : Permission → Option Bool) (calls : List PermissionCall) : Prop :=
  ∀ p b, (Machine.lastRequest (·.requests p) calls).or (constructed p) = some b → entry.mFlags.bit p = b

/-- The assets were granted by the last call that named them, or by none and not asked for either. -/
def AssetsGrantedLast (assets : Bool) (calls : List PermissionCall) : Prop :=
  Machine.lastRequest (·.requests .assets) calls = some true ∨
    Machine.lastRequest (·.requests .assets) calls = none ∧ assets = false

end CAccessEntry

theorem AEFlags.getNr_ofByte (byte : UInt8) : (AEFlags.ofByte byte).getNr = byte := by
  refine UInt8.eq_of_toBitVec_eq (BitVec.eq_of_getLsbD_eq fun i hi => ?_)
  calc (AEFlags.ofByte byte).getNr.toBitVec.getLsbD i
      = ((List.range 8).map byte.toBitVec.getLsbD).getD i false := BitVec.getLsbD_ofBoolListLE
    _ = byte.toBitVec.getLsbD i := by simp [hi]

open CAccessEntry in
theorem permissions_asRequested_iff (memory : AEFlags) (sdID : Bytes) (write read execute assets : Bool)
    (calls : List PermissionCall) :
    (AsRequested (Machine.final permissionCall (construct memory sdID write read execute assets) calls)
        (constructorRequests write read execute assets) calls ↔
      AssetsGrantedLast assets calls) ∧
    (∀ (entry : CAccessEntry) op p, op.requests p = none →
      (entry.permissionCall op).2.mFlags.bit p = entry.mFlags.bit p) ∧
    (∀ flags, AEFlags.ofByte flags.getNr = flags) ∧ ∀ byte, (AEFlags.ofByte byte).getNr = byte := by
  refine ⟨?_, fun entry op p => permissionCall_frame entry op, AEFlags.ofByte_getNr, AEFlags.getNr_ofByte⟩
  have hconstructed : (construct memory sdID write read execute assets).mFlags.bit .assets = false := rfl
  have hassets := final_assets (construct memory sdID write read execute assets) calls
  rw [hconstructed] at hassets
  unfold AssetsGrantedLast
  constructor
  · intro hrequested
    have hlast := hrequested .assets
    rw [hassets] at hlast
    cases hcalls : Machine.lastRequest (·.requests .assets) calls with
    | none =>
        rw [hcalls] at hlast
        exact .inr ⟨rfl, (hlast assets rfl).symm⟩
    | some b =>
        rw [hcalls] at hlast
        exact .inl (congrArg some (hlast b rfl).symm)
  · intro hlast p b hb
    by_cases hp : p = .assets
    · subst hp
      rw [hassets]
      rcases hlast with hcalls | ⟨hcalls, rfl⟩
      · rw [hcalls] at hb ⊢
        exact Option.some.inj hb
      · rw [hcalls] at hb ⊢
        exact Option.some.inj hb
    · rw [final_bit _ calls hp]
      cases hcalls : Machine.lastRequest (·.requests p) calls with
      | none =>
          rw [hcalls] at hb
          exact bit_construct memory sdID write read execute assets hp hb
      | some b' =>
          rw [hcalls] at hb
          exact Option.some.inj hb

/-- The assets that were granted stay granted when they are revoked. -/
theorem revoked_assets_stay :
    ¬ CAccessEntry.AsRequested
      (Machine.final CAccessEntry.permissionCall (CAccessEntry.construct {} [1] false true false false)
        [.grantAssets true, .grantAssets false])
      (CAccessEntry.constructorRequests false true false false) [.grantAssets true, .grantAssets false] := by
  intro hrequested
  exact absurd (hrequested .assets false rfl) (by decide)

/-! ### Storage and copies -/

namespace CAccessEntry

def grantPollAccess (entry : CAccessEntry) (pollID : UInt64) : CAccessEntry :=
  if entry.mPollIDs.contains pollID then entry else { entry with mPollIDs := entry.mPollIDs ++ [pollID] }

/-- Of the entries with this ID the first is erased. -/
def removePollAccess (entry : CAccessEntry) (pollID : UInt64) : Bool × CAccessEntry :=
  if entry.mPollIDs.contains pollID then (true, { entry with mPollIDs := entry.mPollIDs.erase pollID })
  else (false, entry)

/-- The copy constructor. -/
def copy (sibling : CAccessEntry) : CAccessEntry := { mSDID := sibling.mSDID, mFlags := sibling.mFlags }

/-- A call that grants access to a poll, or removes it. -/
inductive PollCall where
  | grantPollAccess (pollID : UInt64)
  | removePollAccess (pollID : UInt64)
  deriving DecidableEq, Repr

def pollCall (entry : CAccessEntry) : PollCall → Option Bool × CAccessEntry
  | .grantPollAccess pollID => (none, entry.grantPollAccess pollID)
  | .removePollAccess pollID => (some (entry.removePollAccess pollID).1, (entry.removePollAccess pollID).2)

/-- What a call requests for a poll. -/
def PollCall.requests : PollCall → UInt64 → Option Bool
  | .grantPollAccess id, pollID => if id = pollID then some true else none
  | .removePollAccess id, pollID => if id = pollID then some false else none

/-- A call answers for the poll that it names, and no poll is listed twice. -/
theorem granted_pollCall (entry : CAccessEntry) (op : PollCall) (hnodup : entry.mPollIDs.Nodup) (pollID : UInt64) :
    (entry.pollCall op).2.getIsPollAccessGranted pollID =
        (op.requests pollID).getD (entry.getIsPollAccessGranted pollID) ∧
      (entry.pollCall op).2.mPollIDs.Nodup := by
  cases op with
  | grantPollAccess id =>
      show (entry.grantPollAccess id).getIsPollAccessGranted pollID = _ ∧ (entry.grantPollAccess id).mPollIDs.Nodup
      by_cases hin : id ∈ entry.mPollIDs
      · have hsame : entry.grantPollAccess id = entry := if_pos (List.contains_iff_mem.mpr hin)
        rw [hsame]
        refine ⟨?_, hnodup⟩
        by_cases hid : id = pollID
        · simpa [PollCall.requests, getIsPollAccessGranted, hid] using hid ▸ hin
        · simp [PollCall.requests, hid]
      · have hadded : entry.grantPollAccess id = { entry with mPollIDs := entry.mPollIDs ++ [id] } :=
          if_neg fun hcontains => hin (List.contains_iff_mem.mp hcontains)
        rw [hadded]
        refine ⟨?_, ?_⟩
        · by_cases hid : id = pollID
          · simp [PollCall.requests, getIsPollAccessGranted, hid]
          · simp [PollCall.requests, getIsPollAccessGranted, hid, Ne.symm hid]
        · show (entry.mPollIDs ++ [id]).Nodup
          rw [← List.concat_eq_append, List.nodup_concat]
          exact ⟨hin, hnodup⟩
  | removePollAccess id =>
      show (entry.removePollAccess id).2.getIsPollAccessGranted pollID = _ ∧
        (entry.removePollAccess id).2.mPollIDs.Nodup
      have herased : (entry.removePollAccess id).2 = { entry with mPollIDs := entry.mPollIDs.erase id } := by
        unfold removePollAccess
        split_ifs with hin
        · rfl
        · rw [List.erase_of_not_mem fun hmem => hin (List.contains_iff_mem.mpr hmem)]
      rw [herased]
      refine ⟨?_, hnodup.erase id⟩
      by_cases hid : id = pollID
      · simp [PollCall.requests, getIsPollAccessGranted, hid, hnodup.mem_erase_iff]
      · simp [PollCall.requests, getIsPollAccessGranted, hid, hnodup.mem_erase_iff, Ne.symm hid]

/-- Access to a poll is granted where the last call that names it says so. -/
theorem final_granted {entry : CAccessEntry} (hnone : entry.mPollIDs = []) (calls : List PollCall) (pollID : UInt64) :
    (Machine.final pollCall entry calls).getIsPollAccessGranted pollID =
      (Machine.lastRequest (·.requests pollID) calls).getD false := by
  have hnodup : entry.mPollIDs.Nodup := hnone ▸ List.nodup_nil
  have hreading := Machine.reading_final (fun entry : CAccessEntry => entry.mPollIDs.Nodup)
    (fun entry => getIsPollAccessGranted entry pollID) (·.requests pollID)
    (fun entry op hnodup => granted_pollCall entry op hnodup pollID)
    hnodup calls
  have hbefore : entry.getIsPollAccessGranted pollID = false := by
    unfold getIsPollAccessGranted
    rw [hnone]
    rfl
  rw [hbefore] at hreading
  exact hreading

/-- No poll is left where no call that was the last to name one grants it. -/
theorem final_mPollIDs_eq_nil_iff {entry : CAccessEntry} (hnone : entry.mPollIDs = []) (calls : List PollCall) :
    (Machine.final pollCall entry calls).mPollIDs = [] ↔
      ∀ pollID, Machine.lastRequest (·.requests pollID) calls ≠ some true := by
  have hgranted : ∀ pollID, pollID ∈ (Machine.final pollCall entry calls).mPollIDs ↔
      Machine.lastRequest (·.requests pollID) calls = some true := by
    intro pollID
    have hfinal := final_granted hnone calls pollID
    rw [← List.contains_iff_mem]
    change getIsPollAccessGranted _ pollID = true ↔ _
    rw [hfinal]
    cases Machine.lastRequest (·.requests pollID) calls with
    | none => exact iff_of_false Bool.false_ne_true nofun
    | some b => exact (Option.some.injEq b true ▸ Iff.rfl)
  rw [List.eq_nil_iff_forall_not_mem]
  exact forall_congr' fun pollID => not_congr (hgranted pollID)

/-- The entry comes back from storage as it is. -/
def Survives (codec : DerCodec) (entry : CAccessEntry) : Prop :=
  ∃ loaded, instantiate codec (entry.getPackedData codec) = some loaded ∧ loaded.mFlags = entry.mFlags ∧
    loaded.mSDID = entry.mSDID ∧ loaded.mPollIDs = entry.mPollIDs

theorem survives_iff_nil (codec : DerCodec) (entry : CAccessEntry) : entry.Survives codec ↔ entry.mPollIDs = [] := by
  unfold Survives
  rw [instantiate_getPackedData]
  constructor
  · rintro ⟨loaded, hloaded, -⟩
    split_ifs at hloaded with hnone
    exact hnone
  · intro hnone
    rw [if_pos hnone]
    exact ⟨entry, rfl, rfl, rfl, rfl⟩

end CAccessEntry

/-- A descriptor is decoded where no entry gives access to a poll, and its extensions can be read. -/
theorem StoredDescriptor.instantiate_isSome_iff (codec : DerCodec) (desc : StoredDescriptor) :
    (StoredDescriptor.instantiate codec (desc.getPackedData codec).1).isSome = true ↔
      (∀ entry ∈ desc.mAccessEntries, entry.mPollIDs = []) ∧
        (StoredDescriptor.readExtensions codec (desc.packExtensions codec).mExtensionBytes).isSome = true := by
  rw [instantiate_getPackedData]
  split_ifs with hentries
  · rw [Option.isSome_map]
    exact (and_iff_right hentries).symm
  · exact iff_of_false Bool.false_ne_true fun h => hentries h.1

open CAccessEntry in
theorem entries_survive_iff (codec : DerCodec) :
    (∀ (memory : AEFlags) sdID write read execute assets calls,
      (Machine.final pollCall (construct memory sdID write read execute assets) calls).Survives codec ↔
        ∀ pollID, Machine.lastRequest (·.requests pollID) calls ≠ some true) ∧
    (∀ entry : CAccessEntry, entry.Survives codec ↔ entry.mPollIDs = []) ∧
    (∀ entry : CAccessEntry, entry.copy.mPollIDs = entry.mPollIDs ↔ entry.mPollIDs = []) ∧
    ∀ desc : StoredDescriptor, (StoredDescriptor.instantiate codec (desc.getPackedData codec).1).isSome = true ↔
      (∀ entry ∈ desc.mAccessEntries, entry.mPollIDs = []) ∧
        (StoredDescriptor.readExtensions codec (desc.packExtensions codec).mExtensionBytes).isSome = true := by
  refine ⟨?_, survives_iff_nil codec, fun entry => eq_comm, StoredDescriptor.instantiate_isSome_iff codec⟩
  intro memory sdID write read execute assets calls
  rw [survives_iff_nil]
  exact final_mPollIDs_eq_nil_iff rfl calls

/-- An entry with access to one poll is lost, and with it the descriptor. -/
theorem pollEntry_lost :
    ¬ ∀ codec (calls : List CAccessEntry.PollCall),
      (Machine.final CAccessEntry.pollCall (CAccessEntry.construct {} [1] true true true false) calls).Survives codec ∧
        (StoredDescriptor.instantiate codec (StoredDescriptor.getPackedData codec
          { mAccessEntries := [Machine.final CAccessEntry.pollCall
              (CAccessEntry.construct {} [1] true true true false) calls] }).1).isSome = true := by
  intro hall
  have hsurvives := (hall DerCodec.standard [.grantPollAccess 1]).1
  rw [CAccessEntry.survives_iff_nil] at hsurvives
  exact absurd hsurvives (by decide)

end Gridnet
