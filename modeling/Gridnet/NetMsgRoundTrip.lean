import Gridnet.NetMsgCodec

/-! Datagrams that are packed and read. A datagram is read as it was packed exactly when every field keeps its limit. -/

namespace Gridnet

open Ber ASN1_Tag

namespace CNetMsg

namespace Field

theorem limitedNumber_integerContents {most n : ℕ} (hmost : most < 2 ^ 32) :
    limitedNumber most (integerContents n) = if n ≤ most then some n else none := by
  rw [limitedNumber, smallInteger_integerContents]
  by_cases hle : n ≤ most
  · rw [if_pos (hle.trans_lt hmost), if_pos hle, Option.bind_some, if_neg (Nat.not_lt.mpr hle)]
  · rw [if_neg hle]
    split_ifs
    · rw [Option.bind_some, if_pos (Nat.lt_of_not_le hle)]
    · rfl

theorem limited_eq (most : ℕ) (contents : Bytes) :
    limited most contents = if contents.length ≤ most then some contents else none := by
  rw [limited]
  split_ifs with hlong hle hle
  · exact absurd hlong (Nat.not_lt.mpr hle)
  · rfl
  · rfl
  · exact absurd (Nat.lt_of_not_le hle) hlong

/-- A value of an enumeration is never larger than its `MaxValue`. -/
theorem read_type {T : Type} (ofNat : ℕ → T) (type : T) {most n : ℕ} (hle : n ≤ most) (hmost : most < 2 ^ 32)
    (hn : ofNat n = type) : (limitedNumber most (integerContents n)).map ofNat = some type := by
  rw [limitedNumber_integerContents hmost, if_pos hle, Option.map_some, hn]

theorem read_seq (seq : UInt64) :
    (smallInteger (integerContents seq.toNat)).map UInt64.ofNat = if seq.toNat < 2 ^ 32 then some seq else none := by
  rw [smallInteger_integerContents]
  split_ifs
  · rw [Option.map_some, UInt64.ofNat_toNat]
  · rfl

theorem read_token (token : Option CTransmissionToken) :
    mTT.read (mTT.write token) = if mTT.Fits token then some token else none := by
  cases token with
  | none => rfl
  | some tt =>
      have hfits : mTT.Fits (some tt) ↔ tt.Packable ∧ (tt.pack true).length ≤ 10000 := by simp [Fits]
      change (if tt.pack true = [] then some none else (limited 10000 (tt.pack true)).bind _) = _
      rw [if_neg tt.pack_ne_nil, limited_eq]
      by_cases hlen : (tt.pack true).length ≤ 10000
      · rw [if_pos hlen, Option.bind_some, CTransmissionToken.instantiate_pack (hlen.trans_lt (by decide))]
        by_cases hpackable : tt.Packable
        · rw [if_pos hpackable, if_pos (hfits.mpr ⟨hpackable, hlen⟩)]
          rfl
        · rw [if_neg hpackable, if_neg fun h => hpackable (hfits.mp h).1]
          rfl
      · rw [if_neg hlen, if_neg fun h => hlen (hfits.mp h).2]
        rfl

/-- A written field is read back if it fits, and else not at all. -/
theorem read_write (f : Field) (v : f.Value) :
    f.read (f.write v) = if f.Fits v then some v else none := by
  cases f with
  | mVersion =>
      change (limitedNumber 255 (integerContents v.toNat)).bind _ = _
      rw [limitedNumber_integerContents (by decide), if_pos (Nat.le_of_lt_succ v.toNat_lt), Option.bind_some,
        UInt8.ofNat_toNat]
      rfl
  | mFlags => rfl
  | mDestinationType => exact read_type _ v v.le_MaxValue (by decide) v.ofNat_ctorIdx
  | mSourceType => exact read_type _ v v.le_MaxValue (by decide) v.ofNat_ctorIdx
  | mHops =>
      change (limitedNumber NM_MAX_HOPS (integerContents v.toNat)).map _ = if v.toNat ≤ NM_MAX_HOPS then _ else _
      rw [limitedNumber_integerContents (by decide)]
      split_ifs
      · rw [Option.map_some, UInt64.ofNat_toNat]
      · rfl
  | mSourceSeq => exact read_seq v
  | mDestSeq => exact read_seq v
  | mTT => exact read_token v
  | mEntityType => exact read_type _ v v.le_MaxValue (by decide) v.ofNat_ctorIdx
  | mRequestType => exact read_type _ v v.le_MaxValue (by decide) v.ofNat_ctorIdx
  | _ => exact limited_eq _ _

/-- What a field keeps that was read at all. It is the octets of a token, as they were read, that keep the limit; the
token may need more of them when it is packed. -/
def Kept : (f : Field) → f.Value → Prop
  | mTT, token => ∀ tt ∈ token, tt.Packable ∧
      ∃ ttBytes : Bytes, ttBytes.length ≤ 10000 ∧ CTransmissionToken.instantiate ttBytes = some tt
  | f, v => f.Fits v

theorem fits_of_limited {most : ℕ} {contents b : Bytes} (hread : limited most contents = some b) : b.length ≤ most := by
  rw [limited] at hread
  split_ifs at hread with hlong
  cases hread
  exact Nat.not_lt.mp hlong

theorem fits_of_limitedNumber {most n : ℕ} {contents : Bytes} (hread : limitedNumber most contents = some n) :
    n ≤ most := by
  obtain ⟨temp, -, hread⟩ := Option.bind_eq_some_iff.mp hread
  split_ifs at hread with hlarge
  cases hread
  exact Nat.not_lt.mp hlarge

theorem fits_of_seq {contents : Bytes} {seq : UInt64} (hread : (smallInteger contents).map .ofNat = some seq) :
    seq.toNat < 2 ^ 32 := by
  obtain ⟨temp, hsmall, rfl⟩ := Option.map_eq_some_iff.mp hread
  have hlt := smallInteger_lt hsmall
  rwa [UInt64.toNat_ofNat_of_lt' (hlt.trans (by decide))]

theorem kept_of_read {f : Field} {contents : Bytes} {v : f.Value} (hread : f.read contents = some v) : f.Kept v := by
  cases f with
  | mVersion =>
      obtain ⟨version, -, hread⟩ := Option.bind_eq_some_iff.mp hread
      split_ifs at hread with htwo
      cases hread
      exact htwo
  | mHops =>
      obtain ⟨hops, hlimited, rfl⟩ := Option.map_eq_some_iff.mp hread
      have hle := fits_of_limitedNumber hlimited
      change (UInt64.ofNat hops).toNat ≤ NM_MAX_HOPS
      rwa [UInt64.toNat_ofNat_of_lt' (hle.trans_lt (by decide))]
  | mSourceSeq => exact fits_of_seq hread
  | mDestSeq => exact fits_of_seq hread
  | mTT =>
      rw [read] at hread
      split_ifs at hread
      · cases hread
        exact fun tt htt => absurd htt (Option.not_mem_none tt)
      · obtain ⟨ttBytes, hlimited, hread⟩ := Option.bind_eq_some_iff.mp hread
        obtain ⟨tt, hinstantiate, rfl⟩ := Option.map_eq_some_iff.mp hread
        intro tt' htt'
        cases htt'
        exact ⟨CTransmissionToken.packable_of_instantiate hinstantiate, ttBytes, fits_of_limited hlimited, hinstantiate⟩
  | mDestination => exact fits_of_limited hread
  | mSource => exact fits_of_limited hread
  | mNextHop => exact fits_of_limited hread
  | mExtraData => exact fits_of_limited hread
  | mData => exact fits_of_limited hread
  | mSig => exact fits_of_limited hread
  | _ => trivial

end Field

theorem contentLength_take {count length : ℕ} {ber : Bytes} (hcount : count ≤ ber.length) (hsmall : count ≤ 4)
    (hlength : length < 256 ^ (4 - count)) :
    contentLength length (ber.take count) = lengthOctets count length ber := by
  induction count generalizing length ber with
  | zero => rfl
  | succ count ih =>
      cases ber with
      | nil => exact absurd hcount (Nat.not_succ_le_zero count)
      | cons b ber =>
          have hb := b.toNat_lt
          have hbound : 256 ^ (4 - count) = 256 ^ (4 - (count + 1)) * 256 := by
            rw [← pow_succ]
            congr 1
            omega
          have hsmallest : 256 ^ (4 - (count + 1)) ≤ 256 ^ 3 := Nat.pow_le_pow_right (by decide) (by omega)
          have hshift : length <<< 8 ||| b.toNat = length * 256 + b.toNat := by
            rw [Nat.shiftLeft_eq, Nat.mul_comm]
            exact (Nat.two_pow_add_eq_or_of_lt (i := 8) hb length).symm
          rw [List.take_succ_cons, contentLength, if_neg (by norm_num; omega), hshift, lengthOctets]
          exact ih (Nat.le_of_succ_le_succ hcount) (by omega) (by omega)

/-- The declared length is the one that the decoder reads, with an indefinite length taken as nothing. -/
theorem declaredLength_eq (first : UInt8) (ber : Bytes) :
    declaredLength (first :: ber) = (lengthField (fun _ => some 0) ber).map Prod.swap := by
  cases ber with
  | nil => rfl
  | cons b ber =>
      rw [declaredLength, lengthField]
      simp only [List.getElem?_cons_succ, List.getElem?_cons_zero, Option.bind_eq_bind, Option.bind_some,
        List.length_cons, List.drop_succ_cons, List.drop_zero, Nat.add_sub_cancel]
      by_cases hshort : b &&& 0x80 = 0
      · rw [if_neg (not_not.mpr hshort), if_pos hshort]
        rfl
      · rw [if_pos hshort, if_neg hshort]
        by_cases hlong : (b &&& 0x7F).toNat + 1 > 5
        · rw [if_pos (.inl hlong), if_pos (by omega)]
          rfl
        · rw [if_neg (show ¬1 + (b &&& 0x7F).toNat > 5 by omega)]
          by_cases hzero : (b &&& 0x7F).toNat = 0
          · rw [hzero, if_neg (by omega)]
            rfl
          · rw [if_neg (show ¬1 + (b &&& 0x7F).toNat = 1 by omega), Nat.add_sub_cancel_left]
            by_cases henough : ber.length < (b &&& 0x7F).toNat
            · rw [if_pos (by omega), lengthOctets_none henough]
              rfl
            · rw [if_neg (by omega), contentLength_take (by omega) (by omega) (Nat.pow_pos (by decide)), Nat.add_comm 1]
              cases lengthOctets (b &&& 0x7F).toNat 0 ber <;> rfl

theorem length_of_preValidated {packedData : Bytes} (hvalid : preValidated packedData = true) :
    packedData.length ≤ NM_MAX_DATA_SIZE + 10000 := by
  rw [preValidated, Bool.and_eq_true] at hvalid
  obtain ⟨⟨lengthOctets, contentLength⟩, -, hall⟩ := (Option.any_eq_true _ _).mp hvalid.2
  rw [Bool.and_eq_true, decide_eq_true_iff] at hall
  exact hall.2

theorem preValidated_cons {contents : Bytes} (hcontents : 3 ≤ contents.length)
    (hlen : (cons SEQUENCE UNIVERSAL contents).length ≤ NM_MAX_DATA_SIZE + 10000) :
    preValidated (cons SEQUENCE UNIVERSAL contents) = true := by
  have hmost : NM_MAX_DATA_SIZE + 10000 < 2 ^ 30 := by decide
  have hsize : (cons SEQUENCE UNIVERSAL contents).length =
      1 + (encodeLength contents.length).length + contents.length := by
    rw [cons_sequence, List.length_cons, List.length_append]
    omega
  have hpos : 1 ≤ (encodeLength contents.length).length := length_encodeLength_mono (Nat.zero_le _)
  have hdeclared : declaredLength (cons SEQUENCE UNIVERSAL contents) =
      some ((encodeLength contents.length).length, contents.length) := by
    rw [cons_sequence, declaredLength_eq, lengthField_encodeLength _ (by omega)]
    rfl
  have hmax : contents.length ≤ MAX_DATAGRAM_SIZE := by
    rw [MAX_DATAGRAM_SIZE]
    omega
  rw [preValidated, hdeclared]
  simp only [Option.any_some, Bool.and_eq_true, decide_eq_true_iff]
  exact ⟨⟨by omega, rfl⟩, ⟨hmax, hsize.symm⟩, hlen⟩

theorem assigned_record (m : CNetMsg) : assigned m.record = m := rfl
theorem length_encode (m : CNetMsg) : 3 ≤ (codec.encode Field.layout m.record).length := by
  have hflags : (addObject OCTET_STRING UNIVERSAL [m.mFlags]).length = 3 := rfl
  have hmem : addObject OCTET_STRING UNIVERSAL [m.mFlags] ∈ Field.layout.map fun f =>
      addObject (codec.type_tag f) UNIVERSAL (codec.write f (m.record f)) :=
    List.mem_map.mpr ⟨.mFlags, by decide, rfl⟩
  rw [FieldCodec.encode, FieldCodec.row, List.flatMap_def, ← hflags]
  exact (List.sublist_flatten_of_mem hmem).length_le

/-- A datagram is read as it was packed if it keeps all limits, and else not at all. -/
theorem instantiate_getPackedData (fresh m : CNetMsg) :
    instantiate fresh m.getPackedData = if m.Deliverable then some m else none := by
  by_cases hsize : m.getPackedData.length ≤ NM_MAX_DATA_SIZE + 10000
  · have hcontents : (codec.encode Field.layout m.record).length < 2 ^ 32 :=
      ((length_le_addObject _ _ _).trans hsize).trans_lt (by decide)
    have hlen : ∀ f ∈ Field.layout, (codec.write f (m.record f)).length < 2 ^ 32 := fun f hf =>
      (codec.length_contents_le hf).trans_lt hcontents
    have hvalid : preValidated m.getPackedData = true := preValidated_cons m.length_encode hsize
    have henter : enterCons SEQUENCE m.getPackedData = some (codec.encode Field.layout m.record, []) :=
      enterCons_cons_last hcontents
    rw [instantiate, if_pos hvalid, henter, Option.bind_eq_bind, Option.bind_some]
    dsimp only
    by_cases hfits : ∀ f ∈ Field.layout, f.Fits (m.record f)
    · have hread : ∀ f ∈ Field.layout, codec.read f (codec.write f (m.record f)) = some (m.record f) := fun f hf =>
        (Field.read_write f _).trans (if_pos (hfits f hf))
      have hdecode : codec.decodeAll Field.layout fresh.record (codec.encode Field.layout m.record) =
          some m.record := by
        rw [FieldCodec.encode, FieldCodec.decodeAll_row hlen hread]
        exact congrArg some (funext fun f => if_pos f.mem_layout)
      rw [hdecode, if_pos (c := m.Deliverable) ⟨hfits, hsize⟩]
      rfl
    · have hdecode : codec.decodeAll Field.layout fresh.record (codec.encode Field.layout m.record) = none := by
        by_contra hsome
        obtain ⟨record, hsome⟩ := Option.ne_none_iff_exists'.mp hsome
        refine hfits fun f hf => ?_
        obtain ⟨value, hvalue⟩ := FieldCodec.read_of_decodeAll_row hlen hsome f hf
        by_contra hlimit
        rw [show codec.read f (codec.write f (m.record f)) = none from
          (Field.read_write f _).trans (if_neg hlimit)] at hvalue
        cases hvalue
      rw [hdecode, if_neg (c := m.Deliverable) fun hdeliverable => hfits hdeliverable.1]
      rfl
  · rw [instantiate, if_neg fun hvalid => hsize (length_of_preValidated hvalid),
      if_neg (c := m.Deliverable) fun hdeliverable => hsize hdeliverable.2]

/-- What is read of a packed datagram is that datagram. -/
theorem eq_of_instantiate {fresh m m' : CNetMsg} (hread : instantiate fresh m.getPackedData = some m') : m' = m := by
  rw [instantiate_getPackedData] at hread
  split_ifs at hread
  exact (Option.some.inj hread).symm

/-- Whatever is read keeps the limits of all fields. -/
theorem kept_of_instantiate {fresh m : CNetMsg} {packedData : Bytes} (hread : instantiate fresh packedData = some m)
    (f : Field) : f.Kept (m.record f) := by
  rw [instantiate] at hread
  split_ifs at hread
  obtain ⟨⟨dec, rest⟩, -, hread⟩ := Option.bind_eq_some_iff.mp hread
  obtain ⟨record, hdecode, hread⟩ := Option.bind_eq_some_iff.mp hread
  cases hread
  obtain ⟨contents, hfield⟩ := FieldCodec.read_of_decodeAll Field.nodup_layout hdecode f f.mem_layout
  cases f <;> exact Field.kept_of_read hfield

/-- Packed again, a datagram that was read can only be too long: in its token or as a whole. -/
theorem deliverable_iff_of_kept {m : CNetMsg} (hkept : ∀ f : Field, f.Kept (m.record f)) :
    m.Deliverable ↔ (∀ tt ∈ m.mTT, (tt.pack true).length ≤ 10000) ∧
      m.getPackedData.length ≤ NM_MAX_DATA_SIZE + 10000 := by
  refine and_congr_left fun _ => ⟨fun hfits tt htt => (hfits .mTT (by decide) tt htt).2, fun htoken f _ => ?_⟩
  cases f with
  | mTT => exact fun tt htt => ⟨(hkept .mTT tt htt).1, htoken tt htt⟩
  | mVersion => exact hkept .mVersion
  | mDestination => exact hkept .mDestination
  | mSource => exact hkept .mSource
  | mNextHop => exact hkept .mNextHop
  | mHops => exact hkept .mHops
  | mSourceSeq => exact hkept .mSourceSeq
  | mDestSeq => exact hkept .mDestSeq
  | mExtraData => exact hkept .mExtraData
  | mData => exact hkept .mData
  | mSig => exact hkept .mSig
  | _ => trivial

/-- A packed datagram is read as it was exactly when it keeps its limits, and it is never read as another one. What is
read from any octets keeps the limits, a token that of the octets that it was read from; packed again, it is read again
unless its token or the whole has become too long. -/
theorem netMsg_roundTrips_iff :
    (∀ fresh m : CNetMsg, instantiate fresh m.getPackedData = some m ↔ m.Deliverable) ∧
      (∀ fresh m m' : CNetMsg, instantiate fresh m.getPackedData = some m' → m' = m) ∧
      ∀ (fresh m : CNetMsg) (packedData : Bytes), instantiate fresh packedData = some m →
        (∀ f : Field, f.Kept (m.record f)) ∧
          (m.Deliverable ↔ (∀ tt ∈ m.mTT, (tt.pack true).length ≤ 10000) ∧
            m.getPackedData.length ≤ NM_MAX_DATA_SIZE + 10000) := by
  refine ⟨fun fresh m => ?_, fun _ _ _ hread => eq_of_instantiate hread,
    fun _ _ _ hread => ⟨kept_of_instantiate hread, deliverable_iff_of_kept (kept_of_instantiate hread)⟩⟩
  rw [instantiate_getPackedData]
  split_ifs with hdeliverable
  · exact iff_of_true rfl hdeliverable
  · refine iff_of_false (fun hsome => ?_) hdeliverable
    cases hsome

end CNetMsg

end Gridnet
