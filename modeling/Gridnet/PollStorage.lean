import Gridnet.DerTrees
import Gridnet.PollModel

/-! Polls as they are packed into a security descriptor and read back. The exclusive group of a poll is not
packed, and the flags of the element that holds the polls are packed as zero: what comes back is the element
with both cleared. -/

namespace Gridnet

/-- The byte of `VoterFlags`, the first bit lowest. -/
abbrev VoterFlags := UInt8

def VoterFlags.mDoNotCountPower (flags : VoterFlags) : Bool := flags.toBitVec.getLsbD 0

def VoterFlags.getNr (flags : VoterFlags) : UInt64 := flags.toUInt64

/-- The constructor copies two bytes over the one of the flags. -/
def VoterFlags.unpacked (packed : UInt64) : VoterFlags := packed.toUInt8

/-- The flags of a poll in the two bytes they take, the seven reserved bits last. -/
def PollElemFlags.ofWord (word : UInt16) : PollElemFlags where
  mActive := word.toBitVec.getLsbD 0
  mOneTime := word.toBitVec.getLsbD 1
  mFired := word.toBitVec.getLsbD 2
  mExclusiveGroup := word.toBitVec.getLsbD 3
  mCanCreatePollWithPermission := word.toBitVec.getLsbD 4
  mOnlySelectCanVote := word.toBitVec.getLsbD 5
  mAutoActions := word.toBitVec.getLsbD 6
  mNoInheritance := word.toBitVec.getLsbD 7
  mInherited := word.toBitVec.getLsbD 8

/-- A voter with its flags as they are packed; of those of level 2 the IDs are. -/
structure StoredVoter where
  mID : Bytes
  mFlags : VoterFlags := 0
  mLevel2Voters : List Bytes := []

/-- A poll as it is packed. Every poll has the version `initFields` sets. -/
structure StoredPoll where
  mVersion : UInt64 := 1
  mLocalPollElemID : UInt64 := 0
  mExclusiveGroupID : UInt64 := 0
  mFlags : UInt16 := 0
  mRequiredScoring : BigInt := 0
  mDescription : Bytes := []
  mVoters : List StoredVoter := []
  mVersion_eq : mVersion = 1 := by rfl

/-- The element of the polls of a file, with the byte of its flags. -/
structure StoredPollFile where
  mVersion : UInt64 := 1
  mFlags : UInt8 := 0
  mPolls : List StoredPoll := []
  mVersion_eq : mVersion = 1 := by rfl

def StoredVoter.toVoter (voter : StoredVoter) : CVoter :=
  { mID := voter.mID, mDoNotCountPower := voter.mFlags.mDoNotCountPower, mLevel2Voters := voter.mLevel2Voters }

def StoredPoll.toPoll (poll : StoredPoll) : CPollElem :=
  { mLocalPollElemID := poll.mLocalPollElemID
    mExclusiveGroupID := poll.mExclusiveGroupID
    mRequiredScoring := poll.mRequiredScoring
    mFlags := .ofWord poll.mFlags
    mVoters := poll.mVoters.map StoredVoter.toVoter }

def StoredPollFile.toFile (file : StoredPollFile) : CPollFileElem := ⟨file.mPolls.map StoredPoll.toPoll⟩

/-- One more than the highest group ID, which is searched from zero on. -/
def CPollFileElem.genNewExclusiveGroupID (elem : CPollFileElem) : UInt64 :=
  elem.mPolls.foldl (fun highestGroupID poll =>
    if poll.getExclusiveGroupID > highestGroupID then poll.getExclusiveGroupID else highestGroupID) 0 + 1

/-! ### Packing -/

def StoredVoter.packed (voter : StoredVoter) : List Asn1 :=
  [.integer voter.mFlags.getNr.toNat, .octets voter.mID, .sequence (voter.mLevel2Voters.map .octets)]

def StoredPoll.getPackedData (codec : DerCodec) (poll : StoredPoll) : Bytes :=
  codec.der (.sequence [.integer poll.mVersion.toNat, .integer poll.mLocalPollElemID.toNat,
    .integer poll.mFlags.toNat, .octets (BigIntToBytes poll.mRequiredScoring.toNat), .octets poll.mDescription,
    .sequence (poll.mVoters.flatMap StoredVoter.packed)])

/-- The byte vector packed for the flags is not filled with them. -/
def StoredPollFile.getPackedData (codec : DerCodec) (file : StoredPollFile) : Bytes :=
  codec.der (.sequence [.integer file.mVersion.toNat, .octets [0],
    .sequence (file.mPolls.map fun poll => .octets (poll.getPackedData codec))])

/-! ### Unpacking

The inner sequences are read as sequences; `none` stands for the null pointer, which exceptions lead to. One is
thrown by `decode(size_t &)` on numbers over 32 bits. -/

/-- A sequence of octet strings. -/
def octetStrings : List Asn1 → Option (List Bytes)
  | [] => some []
  | .octets temp :: objects => (octetStrings objects).map (temp :: ·)
  | _ :: _ => none

def decodeVoters : List Asn1 → Option (List StoredVoter)
  | [] => some []
  | .integer voterFlags :: .octets temp :: .sequence level2 :: objects =>
      if voterFlags ≥ 2 ^ 32 then none
      else do
        let level2Voters ← octetStrings level2
        let voters ← decodeVoters objects
        some ({ mID := temp, mFlags := .unpacked (.ofNat voterFlags), mLevel2Voters := level2Voters } :: voters)
  | _ :: _ => none

def StoredPoll.instantiate (codec : DerCodec) (bytes : Bytes) : Option StoredPoll :=
  if bytes.length = 0 then none
  else match codec.ber bytes with
    | some (.sequence [.integer sourceVersion, .integer localPollElemID, .integer flags, .octets scoring,
        .octets description, .sequence voters]) =>
        if sourceVersion ≠ 1 ∨ localPollElemID ≥ 2 ^ 32 ∨ flags ≥ 2 ^ 32 then none
        else (decodeVoters voters).map fun mVoters =>
          { mLocalPollElemID := .ofNat localPollElemID
            mFlags := .ofNat flags
            mRequiredScoring := .ofNat 256 (BytesToBigInt scoring)
            mDescription := description
            mVoters := mVoters }
    | _ => none

/-- The flags are constructed from a Boolean, which every byte but zero is read as. A vector without a first
byte, which the code reads anyhow, is answered with the null pointer. -/
def StoredPollFile.instantiate (codec : DerCodec) (bytes : Bytes) : Option StoredPollFile :=
  if bytes.length = 0 then none
  else match codec.ber bytes with
    | some (.sequence [.integer sourceVersion, .octets (flagsV :: _), .sequence polls]) =>
        if sourceVersion ≠ 1 then none
        else do
          let temps ← octetStrings polls
          let mPolls ← temps.mapM (StoredPoll.instantiate codec)
          some { mFlags := if flagsV = 0 then 0 else 1, mPolls := mPolls }
    | _ => none

/-! ### What comes back -/

def StoredPoll.restored (poll : StoredPoll) : StoredPoll := { poll with mExclusiveGroupID := 0 }

def StoredPollFile.restored (file : StoredPollFile) : StoredPollFile :=
  { file with mFlags := 0, mPolls := file.mPolls.map StoredPoll.restored }

section RoundTrip

/-- What is read back element by element comes back exactly if every element does. -/
theorem mapM_map_ite {α β γ : Type*} {pack : α → β} {read : β → Option γ} {restored : α → γ} {Fits : α → Prop}
    [DecidablePred Fits] (hread : ∀ a, read (pack a) = if Fits a then some (restored a) else none) (l : List α) :
    (l.map pack).mapM read = if ∀ a ∈ l, Fits a then some (l.map restored) else none := by
  induction l with
  | nil => rfl
  | cons a l ih =>
      have hsplit : (∀ x ∈ a :: l, Fits x) ↔ Fits a ∧ ∀ x ∈ l, Fits x := List.forall_mem_cons
      rw [List.map_cons, List.mapM_cons, hread, ih]
      by_cases hhere : Fits a
      · by_cases hrest : ∀ x ∈ l, Fits x
        · rw [if_pos hhere, if_pos hrest, if_pos (hsplit.mpr ⟨hhere, hrest⟩)]
          rfl
        · rw [if_pos hhere, if_neg hrest, if_neg fun hall => hrest (hsplit.mp hall).2]
          rfl
      · rw [if_neg hhere, if_neg fun hall => hhere (hsplit.mp hall).1]
        rfl

variable (codec : DerCodec)

@[simp]
theorem octetStrings_map (temps : List Bytes) : octetStrings (temps.map .octets) = some temps := by
  induction temps with
  | nil => rfl
  | cons temp temps ih => rw [List.map_cons, octetStrings, ih, Option.map_some]

theorem octetStrings_map_octets {α : Type*} (pack : α → Bytes) (l : List α) :
    octetStrings (l.map fun a => .octets (pack a)) = some (l.map pack) := by
  rw [← octetStrings_map, List.map_map]
  rfl

theorem octetStrings_eq_some {objects : List Asn1} {temps : List Bytes} :
    octetStrings objects = some temps ↔ objects = temps.map .octets := by
  constructor
  · intro hread
    induction objects generalizing temps with
    | nil =>
        obtain rfl := Option.some.inj hread
        rfl
    | cons object objects ih =>
        cases object with
        | octets temp =>
            obtain ⟨rest, hrest, rfl⟩ := Option.map_eq_some_iff.mp hread
            rw [List.map_cons, ih hrest]
        | integer n => cases hread
        | sequence inner => cases hread
  · rintro rfl
    exact octetStrings_map temps

theorem VoterFlags.unpacked_getNr (flags : VoterFlags) :
    VoterFlags.unpacked (.ofNat flags.getNr.toNat) = flags := by
  rw [VoterFlags.unpacked, UInt64.ofNat_toNat, VoterFlags.getNr]
  exact UInt8.toUInt8_toUInt64 flags

theorem decodeVoters_packed (voters : List StoredVoter) :
    decodeVoters (voters.flatMap StoredVoter.packed) = some voters := by
  induction voters with
  | nil => rfl
  | cons voter voters ih =>
      have hflags : ¬ voter.mFlags.getNr.toNat ≥ 2 ^ 32 := by
        rw [VoterFlags.getNr, UInt8.toNat_toUInt64]
        have hbyte := voter.mFlags.toNat_lt
        omega
      rw [List.flatMap_cons, StoredVoter.packed]
      simp only [List.cons_append, List.nil_append, decodeVoters]
      rw [if_neg hflags, octetStrings_map, ih, VoterFlags.unpacked_getNr]
      rfl

/-- A poll comes back exactly if its ID takes 32 bits. -/
theorem StoredPoll.instantiate_getPackedData (poll : StoredPoll) :
    StoredPoll.instantiate codec (poll.getPackedData codec) =
      if poll.mLocalPollElemID.toNat < 2 ^ 32 then some poll.restored else none := by
  have hlength : ¬ (poll.getPackedData codec).length = 0 :=
    fun hnil => codec.der_ne_nil _ (List.length_eq_zero_iff.mp hnil)
  have hfields : (poll.mVersion.toNat ≠ 1 ∨ poll.mLocalPollElemID.toNat ≥ 2 ^ 32 ∨ poll.mFlags.toNat ≥ 2 ^ 32) ↔
      ¬ poll.mLocalPollElemID.toNat < 2 ^ 32 := by
    rw [poll.mVersion_eq]
    have hversion : (1 : UInt64).toNat = 1 := rfl
    have hflags := poll.mFlags.toNat_lt
    omega
  rw [StoredPoll.instantiate, if_neg hlength, StoredPoll.getPackedData, codec.ber_der]
  dsimp only
  by_cases hid : poll.mLocalPollElemID.toNat < 2 ^ 32
  · rw [if_neg fun hlarge => hfields.mp hlarge hid, if_pos hid, decodeVoters_packed, Option.map_some,
      BytesToBigInt_BigIntToBytes, UInt64.ofNat_toNat, UInt16.ofNat_toNat, BitVec.ofNat_toNat, BitVec.setWidth_eq]
    obtain ⟨_, _, _, _, _, _, _, rfl⟩ := poll
    rfl
  · rw [if_pos (hfields.mpr hid), if_neg hid]

theorem StoredPollFile.instantiate_getPackedData (file : StoredPollFile) :
    StoredPollFile.instantiate codec (file.getPackedData codec) =
      if ∀ poll ∈ file.mPolls, poll.mLocalPollElemID.toNat < 2 ^ 32 then some file.restored else none := by
  have hlength : ¬ (file.getPackedData codec).length = 0 :=
    fun hnil => codec.der_ne_nil _ (List.length_eq_zero_iff.mp hnil)
  have hversion : ¬ file.mVersion.toNat ≠ 1 := by
    rw [file.mVersion_eq]
    exact not_not.mpr rfl
  rw [StoredPollFile.instantiate, if_neg hlength, StoredPollFile.getPackedData, codec.ber_der]
  dsimp only
  rw [if_neg hversion, octetStrings_map_octets]
  simp only [Option.bind_eq_bind, Option.bind_some,
    mapM_map_ite (StoredPoll.instantiate_getPackedData codec) file.mPolls]
  obtain ⟨_, _, _, rfl⟩ := file
  split_ifs <;> rfl

end RoundTrip

/-! ### What is lost -/

/-- What a poll has to have in common with the one it comes back as. -/
structure StoredPoll.Same (poll loaded : StoredPoll) : Prop where
  localID : loaded.mLocalPollElemID = poll.mLocalPollElemID
  flags : loaded.mFlags = poll.mFlags
  scoring : loaded.mRequiredScoring = poll.mRequiredScoring
  description : loaded.mDescription = poll.mDescription
  group : loaded.mExclusiveGroupID = poll.mExclusiveGroupID
  voters : loaded.mVoters = poll.mVoters

/-- Nothing that matters is lost: the polls and flags are the same, and so are the scores, the triggers and the
exclusive groups. -/
structure StoredPollFile.Same (file loaded : StoredPollFile) : Prop where
  flags : loaded.mFlags = file.mFlags
  polls : List.Forall₂ StoredPoll.Same file.mPolls loaded.mPolls
  scoring : ∀ sdm best, loaded.toFile.mPolls.map (fun poll => poll.getCurrentTotalScoring sdm best) =
    file.toFile.mPolls.map fun poll => poll.getCurrentTotalScoring sdm best
  trigger : ∀ sdm best, loaded.toFile.mPolls.map (fun poll => poll.checkTrigger sdm best) =
    file.toFile.mPolls.map fun poll => poll.checkTrigger sdm best
  finalize : ∀ groupID, loaded.toFile.finalizeExclusiveGroup groupID = file.toFile.finalizeExclusiveGroup groupID
  newGroup : loaded.toFile.genNewExclusiveGroupID = file.toFile.genNewExclusiveGroupID

def StoredPollFile.Survives (codec : DerCodec) (file : StoredPollFile) : Prop :=
  ∃ loaded, StoredPollFile.instantiate codec (file.getPackedData codec) = some loaded ∧ file.Same loaded

theorem StoredPollFile.restored_eq {file : StoredPollFile} (hflags : file.mFlags = 0)
    (hgroups : ∀ poll ∈ file.mPolls, poll.mExclusiveGroupID = 0) : file.restored = file := by
  have hpolls : file.mPolls.map StoredPoll.restored = file.mPolls := by
    rw [List.map_congr_left (g := id), List.map_id]
    intro poll hpoll
    unfold StoredPoll.restored
    rw [← hgroups poll hpoll]
    rfl
  unfold StoredPollFile.restored
  rw [hpolls, ← hflags]

theorem StoredPollFile.restored_eq_iff {file : StoredPollFile} :
    file.restored = file ↔ file.mFlags = 0 ∧ ∀ poll ∈ file.mPolls, poll.mExclusiveGroupID = 0 := by
  constructor
  · intro heq
    refine ⟨(congrArg StoredPollFile.mFlags heq).symm, ?_⟩
    intro poll hpoll
    rw [← heq] at hpoll
    obtain ⟨old, -, rfl⟩ := List.mem_map.mp hpoll
    rfl
  · rintro ⟨hflags, hgroups⟩
    exact StoredPollFile.restored_eq hflags hgroups

/-- What polls have to be for nothing of them to be lost. -/
structure StoredPollFile.Storable (file : StoredPollFile) : Prop where
  flags : file.mFlags = 0
  groups : ∀ poll ∈ file.mPolls, poll.mExclusiveGroupID = 0
  ids : ∀ poll ∈ file.mPolls, poll.mLocalPollElemID.toNat < 2 ^ 32

/-- Polls are read back as they are exactly if they are storable. -/
theorem StoredPollFile.instantiate_eq_self_iff (codec : DerCodec) (file : StoredPollFile) :
    StoredPollFile.instantiate codec (file.getPackedData codec) = some file ↔ file.Storable := by
  rw [StoredPollFile.instantiate_getPackedData]
  constructor
  · intro hread
    split_ifs at hread with hids
    obtain ⟨hflags, hgroups⟩ := StoredPollFile.restored_eq_iff.mp (Option.some.inj hread)
    exact ⟨hflags, hgroups, hids⟩
  · rintro ⟨hflags, hgroups, hids⟩
    rw [if_pos hids, StoredPollFile.restored_eq hflags hgroups]

/-- Polls survive storage exactly if none is in a group other than the one with the ID zero, their own IDs take
32 bits, and the flags of their element are clear. -/
theorem StoredPollFile.survives_iff (codec : DerCodec) (file : StoredPollFile) :
    file.Survives codec ↔ file.Storable := by
  constructor
  · rintro ⟨loaded, hloaded, hsame⟩
    rw [StoredPollFile.instantiate_getPackedData] at hloaded
    split_ifs at hloaded with hids
    obtain rfl := Option.some.inj hloaded
    have hgroups : ∀ poll ∈ file.mPolls, poll.Same poll.restored := by
      have hpolls := hsame.polls
      change List.Forall₂ _ file.mPolls (file.mPolls.map StoredPoll.restored) at hpolls
      rw [List.forall₂_map_right_iff, List.forall₂_same] at hpolls
      exact hpolls
    exact ⟨hsame.flags.symm, fun poll hpoll => (hgroups poll hpoll).group.symm, hids⟩
  · intro hstorable
    refine ⟨file, (StoredPollFile.instantiate_eq_self_iff codec file).mpr hstorable, ?_⟩
    have hpolls : List.Forall₂ StoredPoll.Same file.mPolls file.mPolls :=
      List.forall₂_same.mpr fun _ _ => ⟨rfl, rfl, rfl, rfl, rfl, rfl⟩
    exact ⟨rfl, hpolls, fun _ _ => rfl, fun _ _ => rfl, fun _ => rfl, rfl⟩

/-- A poll of the exclusive group 1 comes back in the group 0. -/
theorem StoredPollFile.exclusive_group_lost :
    ¬ ∀ file, StoredPollFile.Survives .standard file := by
  intro hsurvives
  have hgroup := ((StoredPollFile.survives_iff .standard { mPolls := [{ mExclusiveGroupID := 1, mFlags := 8 }] }).mp
    (hsurvives _)).groups _ (List.mem_singleton_self _)
  exact absurd hgroup (by decide)

end Gridnet
