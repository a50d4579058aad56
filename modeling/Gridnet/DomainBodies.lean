import Gridnet.DerTrees
import Gridnet.Sha256

/-! The bodies of state domains as they are packed into the leaves of the state trie and read back. One layout is
written whatever the version of the domain is, while the version decides how much of it is read. -/

namespace Gridnet

/-- The fields of a `CStateDomain` that are packed, what says that it was changed, and the leaf node it is. The IDs
in the backlog are checked to be hashes wherever they are added; the perspectives are not. -/
structure DomainBody where
  mVersion : UInt64
  mNonce : UInt64 := 1
  mAddress : Bytes := []
  mCodeHash : Bytes := []
  mStoragePerspective : Bytes := []
  mLastModified : UInt64
  mPreviousBodyIDs : List Bytes32 := []
  mPreviousPerspectives : List Bytes := []
  mInFlow : Bool := false
  mWasAlreadyModifiedInFlow : Bool := false
  mIsPrepared : Bool := false
  mMainRAWData : Bytes := []
  mPreComputedHash : Bytes := []

/-- The ways a body is not read: `nullptr`, which exceptions lead to, and an assertion that fails. -/
inductive LoadFault where
  | null
  | aborted
  deriving DecidableEq, Repr

namespace DomainBody

def invalidateNode (d : DomainBody) : DomainBody := { d with mIsPrepared := false, mPreComputedHash := [] }

/-- The fields of every version, and behind them, unless only the hash is prepared, what the later ones read. -/
def packedFields (d : DomainBody) (preparehashOnly : Bool) : List Asn1 :=
  [.integer d.mNonce.toNat, .octets d.mAddress, .octets d.mCodeHash, .octets d.mStoragePerspective] ++
    if preparehashOnly then []
    else [.integer d.mLastModified.toNat, .sequence (d.mPreviousBodyIDs.map fun id => .octets id.val),
      .sequence (d.mPreviousPerspectives.map .octets)]

def packedAccountData (codec : DerCodec) (d : DomainBody) (preparehashOnly : Bool) : Bytes :=
  codec.der (.sequence [.integer 1, .integer d.mVersion.toNat, .sequence (d.packedFields preparehashOnly)])

/-- A node that is prepared already has its hash prepared alone. Otherwise the second round does that. -/
def prepare (codec : DerCodec) (getSHA2_256Vec : Bytes → Bytes) (d : DomainBody)
    (store preparehashOnly : Bool) : DomainBody :=
  if store then
    let d := if d.mIsPrepared || preparehashOnly then d
      else { d with mMainRAWData := d.packedAccountData codec false, mIsPrepared := true }
    { d with mPreComputedHash := getSHA2_256Vec (d.packedAccountData codec true) }
  else d

/-! ### Reading -/

/-- The octet strings among the objects, which have to be hashes; what else there is, is skipped. -/
def decodeHashes : List Asn1 → Except LoadFault (List Bytes32)
  | [] => .ok []
  | .octets value :: objects =>
      if hlength : value.length = 32 then (decodeHashes objects).map (⟨value, hlength⟩ :: ·)
      else .error .aborted
  | _ :: objects => decodeHashes objects

/-- The backlog of the versions 2 and 3, which may be left out. -/
def readBacklog (acc : DomainBody) : List Asn1 → Except LoadFault DomainBody
  | [] => .ok acc
  | .sequence ids :: objects => do
      let ids ← decodeHashes ids
      let acc := { acc with mPreviousBodyIDs := ids }
      if acc.mVersion = 2 then return acc
      else match objects with
        | .sequence perspectives :: _ =>
            let perspectives ← decodeHashes perspectives
            return { acc with mPreviousPerspectives := perspectives.map Subtype.val }
        | _ => throw .aborted
  | _ :: _ => .error .aborted

/-- The fields of a body of the versions 1 to 3. `decode(size_t &)` throws on numbers over 32 bits. -/
def readFields (acc : DomainBody) : List Asn1 → Except LoadFault DomainBody
  | .integer nonce :: .octets address :: .octets codeHash :: .octets storagePerspective :: objects =>
      if nonce ≥ 2 ^ 32 then .error .null
      else
        let acc := { acc with
          mNonce := .ofNat nonce
          mAddress := address
          mCodeHash := codeHash
          mStoragePerspective := storagePerspective }
        if acc.mVersion = 1 then .ok acc
        else match objects with
          | .integer lastModified :: objects =>
              if lastModified ≥ 2 ^ 32 then .error .null
              else readBacklog { acc with mLastModified := .ofNat lastModified } objects
          | _ => .error .null
  | _ => .error .null

/-- `genNode` of the raw data of a leaf, at the time `now`. -/
def genNode (codec : DerCodec) (now : UInt64) (rawData : Bytes) : Except LoadFault DomainBody :=
  match codec.ber rawData with
  | some (.sequence (.integer subT :: .integer version :: objects)) =>
      if subT ≥ 2 ^ 32 ∨ version ≥ 2 ^ 32 then .error .null
      else if subT ≠ 1 then .error .aborted
      else
        let acc : DomainBody := { mVersion := .ofNat version, mLastModified := now, mMainRAWData := rawData }
        if version = 1 ∨ version = 2 ∨ version = 3 then
          match objects with
          | .sequence fields :: _ => acc.readFields fields
          | _ => .error .aborted
        else .ok acc
  | _ => .error .null

/-- A domain is stored, and read back at the time `now`. -/
def reload (codec : DerCodec) (getSHA2_256Vec : Bytes → Bytes) (d : DomainBody) (now : UInt64) :
    Except LoadFault DomainBody :=
  genNode codec now (d.prepare codec getSHA2_256Vec true false).mMainRAWData

/-- The raw data of a node that is prepared are those of its fields. Every change of them invalidates the node. -/
def InSync (codec : DerCodec) (d : DomainBody) : Prop :=
  d.mIsPrepared = true → d.mMainRAWData = d.packedAccountData codec false

/-! ### What is read back -/

section Reading

variable {codec : DerCodec} {getSHA2_256Vec : Bytes → Bytes} {d : DomainBody}

@[simp]
theorem decodeHashes_map (hashes : List Bytes32) :
    decodeHashes (hashes.map fun hash => .octets hash.val) = .ok hashes := by
  induction hashes with
  | nil => rfl
  | cons hash hashes ih =>
      rw [List.map_cons, decodeHashes, dif_pos hash.property, ih]
      rfl

/-- A value that is no hash ends the process. -/
theorem decodeHashes_of_not {values : List Bytes} (hvalues : ¬ ∀ value ∈ values, value.length = 32) :
    decodeHashes (values.map .octets) = .error .aborted := by
  induction values with
  | nil => exact absurd (List.forall_mem_nil _) hvalues
  | cons value values ih =>
      rw [List.map_cons, decodeHashes]
      split_ifs with hlength
      · rw [ih fun hrest => hvalues (List.forall_mem_cons.mpr ⟨hlength, hrest⟩)]
        rfl
      · rfl

/-- The perspectives of a body of version 3, over everything that is read before them. -/
theorem readBacklog_lists (acc : DomainBody) (ids : List Bytes32) (perspectives : List Bytes) :
    acc.readBacklog [.sequence (ids.map fun id => .octets id.val), .sequence (perspectives.map .octets)] =
      if acc.mVersion = 2 then .ok { acc with mPreviousBodyIDs := ids }
      else if ∀ perspective ∈ perspectives, perspective.length = 32 then
        .ok { acc with mPreviousBodyIDs := ids, mPreviousPerspectives := perspectives }
      else .error .aborted := by
  rw [readBacklog, decodeHashes_map]
  dsimp only [Bind.bind, Except.bind]
  split_ifs with htwo hlengths
  · rfl
  · lift perspectives to List Bytes32 using hlengths
    have hread : decodeHashes ((perspectives.map Subtype.val).map .octets) = .ok perspectives := by
      rw [List.map_map]
      exact decodeHashes_map perspectives
    rw [hread]
    rfl
  · rw [decodeHashes_of_not hlengths]

/-- What the fields of a body are read as, by the version. -/
theorem readFields_packedFields (acc d : DomainBody) :
    acc.readFields (d.packedFields false) =
      if 2 ^ 32 ≤ d.mNonce.toNat then .error .null
      else
        let acc := { acc with
          mNonce := d.mNonce
          mAddress := d.mAddress
          mCodeHash := d.mCodeHash
          mStoragePerspective := d.mStoragePerspective }
        if acc.mVersion = 1 then .ok acc
        else if 2 ^ 32 ≤ d.mLastModified.toNat then .error .null
        else if acc.mVersion = 2 then
          .ok { acc with mLastModified := d.mLastModified, mPreviousBodyIDs := d.mPreviousBodyIDs }
        else if ∀ perspective ∈ d.mPreviousPerspectives, perspective.length = 32 then
          .ok { acc with
            mLastModified := d.mLastModified
            mPreviousBodyIDs := d.mPreviousBodyIDs
            mPreviousPerspectives := d.mPreviousPerspectives }
        else .error .aborted := by
  rw [packedFields, if_neg Bool.false_ne_true]
  simp only [List.cons_append, List.nil_append, readFields, UInt64.ofNat_toNat, ge_iff_le, readBacklog_lists]

theorem genNode_packedAccountData (now : UInt64) (hversion : d.mVersion = 1 ∨ d.mVersion = 2 ∨ d.mVersion = 3) :
    genNode codec now (d.packedAccountData codec false) =
      readFields { mVersion := d.mVersion, mLastModified := now, mMainRAWData := d.packedAccountData codec false }
        (d.packedFields false) := by
  have hknown : d.mVersion.toNat = 1 ∨ d.mVersion.toNat = 2 ∨ d.mVersion.toNat = 3 := by
    rcases hversion with hone | htwo | hthree
    · exact .inl (congrArg UInt64.toNat hone)
    · exact .inr (.inl (congrArg UInt64.toNat htwo))
    · exact .inr (.inr (congrArg UInt64.toNat hthree))
  have hsmall : ¬ (1 ≥ 2 ^ 32 ∨ d.mVersion.toNat ≥ 2 ^ 32) := by omega
  rw [genNode, packedAccountData, codec.ber_der]
  dsimp only
  rw [if_neg hsmall, if_neg (by decide), if_pos hknown, UInt64.ofNat_toNat]

end Reading

/-! ### Loading and storing again -/

/-- What a domain has to have in common with the one it comes back as. Bodies of version 1 do not say when they were
modified. -/
structure Kept (d loaded : DomainBody) : Prop where
  version : loaded.mVersion = d.mVersion
  nonce : loaded.mNonce = d.mNonce
  address : loaded.mAddress = d.mAddress
  codeHash : loaded.mCodeHash = d.mCodeHash
  storagePerspective : loaded.mStoragePerspective = d.mStoragePerspective
  lastModified : d.mVersion ≠ 1 → loaded.mLastModified = d.mLastModified
  bodyIDs : loaded.mPreviousBodyIDs = d.mPreviousBodyIDs
  perspectives : loaded.mPreviousPerspectives = d.mPreviousPerspectives

/-- A domain that nothing is lost of however often, and whenever, it is stored and read back. -/
def RoundTrips (codec : DerCodec) (getSHA2_256Vec : Bytes → Bytes) (d : DomainBody) : Prop :=
  ∀ times : List UInt64, ∃ loaded, times.foldlM (reload codec getSHA2_256Vec) d = .ok loaded ∧ d.Kept loaded

/-- What a domain has to be for its version to read all of it: numbers of 32 bits where they are read, a backlog
from version 2 on, and perspectives, which are hashes, in version 3. -/
structure Storable (d : DomainBody) : Prop where
  nonce : d.mNonce.toNat < 2 ^ 32
  lastModified : d.mVersion ≠ 1 → d.mLastModified.toNat < 2 ^ 32
  bodyIDs : d.mVersion = 1 → d.mPreviousBodyIDs = []
  perspectives : ∀ perspective ∈ d.mPreviousPerspectives, d.mVersion = 3 ∧ perspective.length = 32

section RoundTrip

variable {codec : DerCodec} {getSHA2_256Vec : Bytes → Bytes} {d : DomainBody}

theorem Kept.refl (d : DomainBody) : d.Kept d := ⟨rfl, rfl, rfl, rfl, rfl, fun _ => rfl, rfl, rfl⟩

theorem Kept.trans {loaded again : DomainBody} (hfirst : d.Kept loaded) (hsecond : loaded.Kept again) :
    d.Kept again where
  version := hsecond.version.trans hfirst.version
  nonce := hsecond.nonce.trans hfirst.nonce
  address := hsecond.address.trans hfirst.address
  codeHash := hsecond.codeHash.trans hfirst.codeHash
  storagePerspective := hsecond.storagePerspective.trans hfirst.storagePerspective
  lastModified hversion :=
    (hsecond.lastModified (hfirst.version ▸ hversion)).trans (hfirst.lastModified hversion)
  bodyIDs := hsecond.bodyIDs.trans hfirst.bodyIDs
  perspectives := hsecond.perspectives.trans hfirst.perspectives

theorem Storable.perspectives_nil (hstorable : d.Storable) (hversion : d.mVersion ≠ 3) :
    d.mPreviousPerspectives = [] :=
  List.eq_nil_iff_forall_not_mem.mpr fun perspective hmem =>
    hversion (hstorable.perspectives perspective hmem).1

/-- What can be stored depends on what is kept alone. -/
theorem Storable.of_kept {loaded : DomainBody} (hstorable : d.Storable) (hkept : d.Kept loaded) :
    loaded.Storable where
  nonce := hkept.nonce ▸ hstorable.nonce
  lastModified hversion := by
    rw [hkept.version] at hversion
    rw [hkept.lastModified hversion]
    exact hstorable.lastModified hversion
  bodyIDs hversion := by
    rw [hkept.version] at hversion
    rw [hkept.bodyIDs]
    exact hstorable.bodyIDs hversion
  perspectives := by
    rw [hkept.perspectives, hkept.version]
    exact hstorable.perspectives

theorem prepare_mMainRAWData (hsync : d.InSync codec) :
    (d.prepare codec getSHA2_256Vec true false).mMainRAWData = d.packedAccountData codec false := by
  cases hprepared : d.mIsPrepared with
  | true => simpa [prepare, hprepared] using hsync hprepared
  | false => simp [prepare, hprepared]

/-- Preparing a node keeps its raw data those of its fields. -/
theorem inSync_prepare (hsync : d.InSync codec) (store preparehashOnly : Bool) :
    (d.prepare codec getSHA2_256Vec store preparehashOnly).InSync codec := by
  unfold prepare
  split_ifs
  · exact hsync
  · exact fun _ => rfl
  · exact hsync

theorem reload_eq (hsync : d.InSync codec) (hversion : d.mVersion = 1 ∨ d.mVersion = 2 ∨ d.mVersion = 3)
    (now : UInt64) :
    reload codec getSHA2_256Vec d now =
      readFields { mVersion := d.mVersion, mLastModified := now, mMainRAWData := d.packedAccountData codec false }
        (d.packedFields false) := by
  rw [reload, prepare_mMainRAWData hsync]
  exact genNode_packedAccountData now hversion

/-- A domain is read back with all it has exactly if it can be stored. The node that was read is not prepared. -/
theorem reload_kept_iff (hsync : d.InSync codec) (hversion : d.mVersion = 1 ∨ d.mVersion = 2 ∨ d.mVersion = 3)
    (now : UInt64) :
    (∃ loaded, reload codec getSHA2_256Vec d now = .ok loaded ∧ d.Kept loaded) ↔ d.Storable := by
  rw [reload_eq hsync hversion, readFields_packedFields]
  dsimp only
  constructor
  · rintro ⟨loaded, hread, hkept⟩
    split_ifs at hread with hnonce hone hmodified htwo hperspectives
    · obtain rfl := Except.ok.inj hread
      refine ⟨Nat.not_le.mp hnonce, fun hother => absurd hone hother, fun _ => hkept.bodyIDs.symm, ?_⟩
      rw [← hkept.perspectives]
      exact List.forall_mem_nil _
    · obtain rfl := Except.ok.inj hread
      refine ⟨Nat.not_le.mp hnonce, fun _ => Nat.not_le.mp hmodified, fun hfirst => absurd hfirst hone, ?_⟩
      rw [← hkept.perspectives]
      exact List.forall_mem_nil _
    · have hthree : d.mVersion = 3 := (hversion.resolve_left hone).resolve_left htwo
      exact ⟨Nat.not_le.mp hnonce, fun _ => Nat.not_le.mp hmodified, fun hfirst => absurd hfirst hone,
        fun perspective hperspective => ⟨hthree, hperspectives perspective hperspective⟩⟩
  · intro hstorable
    rw [if_neg (Nat.not_le.mpr hstorable.nonce)]
    split_ifs with hone hmodified htwo hperspectives
    · refine ⟨_, rfl, ⟨rfl, rfl, rfl, rfl, rfl, fun hother => absurd hone hother, ?_, ?_⟩⟩
      · exact (hstorable.bodyIDs hone).symm
      · exact (hstorable.perspectives_nil (by rw [hone]; decide)).symm
    · exact absurd (hstorable.lastModified hone) (Nat.not_lt.mpr hmodified)
    · refine ⟨_, rfl, ⟨rfl, rfl, rfl, rfl, rfl, fun _ => rfl, rfl, ?_⟩⟩
      exact (hstorable.perspectives_nil (by rw [htwo]; decide)).symm
    · exact ⟨_, rfl, ⟨rfl, rfl, rfl, rfl, rfl, fun _ => rfl, rfl, rfl⟩⟩
    · exact absurd (fun perspective hmem => (hstorable.perspectives perspective hmem).2) hperspectives

theorem inSync_of_reload {loaded : DomainBody} {now : UInt64} (hsync : d.InSync codec)
    (hversion : d.mVersion = 1 ∨ d.mVersion = 2 ∨ d.mVersion = 3)
    (hread : reload codec getSHA2_256Vec d now = .ok loaded) : loaded.InSync codec := by
  have hprepared : loaded.mIsPrepared = false := by
    rw [reload_eq hsync hversion, readFields_packedFields] at hread
    dsimp only at hread
    split_ifs at hread <;> rw [← Except.ok.inj hread]
  intro hother
  rw [hprepared] at hother
  cases hother

/-- A domain of a known version comes back with all it has, however often it is stored and read back, exactly if its
version reads all of it. -/
theorem roundTrips_iff (codec : DerCodec) (getSHA2_256Vec : Bytes → Bytes) (d : DomainBody)
    (hversion : d.mVersion = 1 ∨ d.mVersion = 2 ∨ d.mVersion = 3) (hsync : d.InSync codec) :
    d.RoundTrips codec getSHA2_256Vec ↔ d.Storable := by
  constructor
  · intro htrips
    obtain ⟨loaded, hloaded, hkept⟩ := htrips [0]
    simp only [List.foldlM_cons, List.foldlM_nil, bind_pure] at hloaded
    exact (reload_kept_iff hsync hversion 0).mp ⟨loaded, hloaded, hkept⟩
  · intro hstorable times
    induction times generalizing d with
    | nil => exact ⟨d, rfl, Kept.refl d⟩
    | cons now times ih =>
        obtain ⟨first, hfirst, hkept⟩ := (reload_kept_iff hsync hversion now).mpr hstorable
        have hversions : first.mVersion = 1 ∨ first.mVersion = 2 ∨ first.mVersion = 3 := by
          rw [hkept.version]
          exact hversion
        obtain ⟨last, hlast, hrest⟩ :=
          ih first hversions (inSync_of_reload hsync hversion hfirst) (hstorable.of_kept hkept)
        refine ⟨last, ?_, hkept.trans hrest⟩
        rw [List.foldlM_cons, hfirst]
        exact hlast

/-- A domain with one previous body. -/
def oneBody (version : UInt64) : DomainBody where
  mVersion := version
  mLastModified := 7
  mPreviousBodyIDs := [⟨List.replicate 32 1, rfl⟩]
  mPreviousPerspectives := [List.replicate 32 1]

/-- Prepared in version 3, it is read back with its backlog. -/
theorem roundTrips_oneBody :
    ((oneBody 3).prepare .standard (fun data => (sha256 data).val) true false).RoundTrips .standard
      fun data => (sha256 data).val :=
  (roundTrips_iff .standard _ _ (.inr (.inr rfl)) (inSync_prepare (fun hprepared => by cases hprepared) true false)).mpr
    ⟨by decide, fun _ => by decide, fun hone => absurd hone (by decide), by decide⟩

/-- A domain of version 1 that was given a backlog is read back without. -/
theorem backlog_lost :
    ¬ ∀ d : DomainBody, d.mVersion = 1 ∨ d.mVersion = 2 ∨ d.mVersion = 3 → d.InSync .standard →
      d.RoundTrips .standard fun data => (sha256 data).val := by
  intro htrips
  have hsync : (oneBody 1).InSync .standard := fun hprepared => by cases hprepared
  have hstorable := (roundTrips_iff .standard _ (oneBody 1) (.inl rfl) hsync).mp (htrips _ (.inl rfl) hsync)
  exact absurd (hstorable.bodyIDs rfl) (List.cons_ne_nil _ _)

end RoundTrip

end DomainBody
end Gridnet
