import Gridnet.Base58Exact
import Gridnet.SextetGroups

/-! Base64 as sextets of bytes, and which texts of both codecs are those that the encoders write. -/

namespace Gridnet

open Sextets

def base64Char (digit : ℕ) : UInt8 := BASE64_CHARS.getD digit 0

/-! ### The window of bits -/

/-- The bits collected so far with a byte behind them. -/
def pushByte (val : UInt32) (c : UInt8) : UInt32 := (val <<< 8) + c.toUInt32

theorem toNat_pushByte (val : UInt32) (c : UInt8) : (pushByte val c).toNat = (val.toNat * 256 + c.toNat) % 2 ^ 32 := by
  simp [pushByte, UInt32.toNat_add, UInt32.toNat_shiftLeft, Nat.shiftLeft_eq]

theorem toNat_and_63 (val : UInt32) : (val &&& 0x3F).toNat = val.toNat % 64 := by
  rw [UInt32.toNat_and]
  exact Nat.and_two_pow_sub_one_eq_mod val.toNat 6

theorem encode64_six (c : UInt8) (data : Bytes) (val : UInt32) :
    encode64 (c :: data) val (-6) =
      base64Char ((pushByte val c).toNat / 4 % 64) :: encode64 data (pushByte val c) (-4) := by
  have hwindow : ((pushByte val c) >>> 2).toNat = (pushByte val c).toNat / 4 := by
    simp [UInt32.toNat_shiftRight, Nat.shiftRight_eq_div_pow]
  rw [← hwindow, ← toNat_and_63]
  rfl

theorem encode64_four (c : UInt8) (data : Bytes) (val : UInt32) :
    encode64 (c :: data) val (-4) =
      base64Char ((pushByte val c).toNat / 16 % 64) :: encode64 data (pushByte val c) (-2) := by
  have hwindow : ((pushByte val c) >>> 4).toNat = (pushByte val c).toNat / 16 := by
    simp [UInt32.toNat_shiftRight, Nat.shiftRight_eq_div_pow]
  rw [← hwindow, ← toNat_and_63]
  rfl

theorem encode64_two (c : UInt8) (data : Bytes) (val : UInt32) :
    encode64 (c :: data) val (-2) =
      base64Char ((pushByte val c).toNat / 64 % 64) :: base64Char ((pushByte val c).toNat % 64) ::
        encode64 data (pushByte val c) (-6) := by
  have hwindow : (pushByte val c >>> 6).toNat = (pushByte val c).toNat / 64 := by
    simp [UInt32.toNat_shiftRight, Nat.shiftRight_eq_div_pow]
  have hlast : (pushByte val c >>> 0).toNat % 64 = (pushByte val c).toNat % 64 := by simp
  rw [← hwindow, ← hlast, ← toNat_and_63, ← toNat_and_63]
  rfl

/-! ### Encoding -/

theorem encode64_nil_four (val : UInt32) : encode64 [] val (-4) = [base64Char (val.toNat % 4 * 16)] := by
  have hwindow : (val <<< 8 >>> 4).toNat % 64 = val.toNat % 4 * 16 := by
    have hshifted : (val <<< 8 >>> 4).toNat = val.toNat * 256 % 2 ^ 32 / 16 := by
      simp [UInt32.toNat_shiftRight, UInt32.toNat_shiftLeft, Nat.shiftRight_eq_div_pow, Nat.shiftLeft_eq]
    omega
  rw [← hwindow, ← toNat_and_63]
  rfl

theorem encode64_nil_two (val : UInt32) : encode64 [] val (-2) = [base64Char (val.toNat % 16 * 4)] := by
  have hwindow : (val <<< 8 >>> 6).toNat % 64 = val.toNat % 16 * 4 := by
    have hshifted : (val <<< 8 >>> 6).toNat = val.toNat * 256 % 2 ^ 32 / 64 := by
      simp [UInt32.toNat_shiftRight, UInt32.toNat_shiftLeft, Nat.shiftRight_eq_div_pow, Nat.shiftLeft_eq]
    omega
  rw [← hwindow, ← toNat_and_63]
  rfl

/-- The loop from a boundary between groups. -/
theorem encode64_eq (data : Bytes) (val : UInt32) :
    encode64 data val (-6) = (ofBytes (byteDigits data)).map base64Char := by
  induction data using threes_induction generalizing val with
  | nil => rfl
  | one a =>
      have hfirst := toNat_pushByte val a
      have ha := a.toNat_lt
      rw [encode64_six, encode64_nil_four]
      simp only [byteDigits, List.map_cons, List.map_nil, ofBytes, List.cons.injEq, and_true]
      refine ⟨congrArg _ ?_, congrArg _ ?_⟩ <;> omega
  | two a b =>
      have hfirst := toNat_pushByte val a
      have hsecond := toNat_pushByte (pushByte val a) b
      have ha := a.toNat_lt
      have hb := b.toNat_lt
      rw [encode64_six, encode64_four, encode64_nil_two]
      simp only [byteDigits, List.map_cons, List.map_nil, ofBytes, List.cons.injEq, and_true]
      refine ⟨congrArg _ ?_, congrArg _ ?_, congrArg _ ?_⟩ <;> omega
  | three a b c rest ih =>
      have hfirst := toNat_pushByte val a
      have hsecond := toNat_pushByte (pushByte val a) b
      have hthird := toNat_pushByte (pushByte (pushByte val a) b) c
      have ha := a.toNat_lt
      have hb := b.toNat_lt
      have hc := c.toNat_lt
      rw [encode64_six, encode64_four, encode64_two, ih]
      simp only [byteDigits, List.map_cons, ofBytes, List.cons.injEq, and_true]
      refine ⟨congrArg _ ?_, congrArg _ ?_, congrArg _ ?_, congrArg _ ?_⟩ <;> omega

/-- What fills a text up to whole groups of four. -/
def padding (length : ℕ) : Bytes := List.replicate ((4 - length % 4) % 4) 61

theorem base64Encode_eq (data : Bytes) :
    base64Encode data = (ofBytes (byteDigits data)).map base64Char ++
      padding (ofBytes (byteDigits data)).length := by
  unfold base64Encode
  dsimp only
  rw [encode64_eq, List.length_map]
  rfl

/-! ### Decoding -/

def base64Digit (c : UInt8) : Option ℕ := BASE64_CHARS.findIdx? (· = c)

/-- The digits that the decoder reads: those of the alphabet, up to the first padding. -/
def sextetsOf (encoded : Bytes) : List ℕ := (encoded.takeWhile (· ≠ 61)).filterMap base64Digit

def pushSextet (val : UInt32) (digit : ℕ) : UInt32 := (val <<< 6) + digit.toUInt32

/-- The loop of the decoder over digits alone. -/
def decodeSextets : List ℕ → UInt32 → Int → Bytes
  | [], _, _ => []
  | digit :: digits, val, valb =>
      if 0 ≤ valb + 6 then
        UInt8.ofNat ((pushSextet val digit >>> (valb + 6).toNat.toUInt32) &&& 0xFF).toNat ::
          decodeSextets digits (pushSextet val digit) (valb + 6 - 8)
      else decodeSextets digits (pushSextet val digit) (valb + 6)

theorem decode64_eq (encoded : Bytes) (val : UInt32) (valb : Int) :
    decode64 encoded val valb = decodeSextets (sextetsOf encoded) val valb := by
  induction encoded generalizing val valb with
  | nil => rfl
  | cons c encoded ih =>
      rw [decode64]
      by_cases hc : c = 61
      · simp [hc, sextetsOf, decodeSextets]
      · rw [if_neg hc, sextetsOf, List.takeWhile_cons_of_pos (by simpa using hc)]
        cases hdigit : base64Digit c with
        | none =>
            rw [List.filterMap_cons_none hdigit]
            rw [base64Digit] at hdigit
            rw [hdigit]
            exact ih val valb
        | some digit =>
            rw [List.filterMap_cons_some hdigit]
            rw [base64Digit] at hdigit
            rw [hdigit, decodeSextets]
            dsimp only
            split_ifs
            · exact congrArg _ (ih _ _)
            · exact ih _ _

theorem toNat_pushSextet (val : UInt32) {digit : ℕ} (hdigit : digit < 64) :
    (pushSextet val digit).toNat = (val.toNat * 64 + digit) % 2 ^ 32 := by
  have hsmall : digit.toUInt32.toNat = digit := Nat.mod_eq_of_lt (hdigit.trans (by decide))
  simp [pushSextet, UInt32.toNat_add, UInt32.toNat_shiftLeft, Nat.shiftLeft_eq, hsmall]

theorem toNat_and_255 (val : UInt32) : (val &&& 0xFF).toNat = val.toNat % 256 := by
  rw [UInt32.toNat_and]
  exact Nat.and_two_pow_sub_one_eq_mod val.toNat 8

theorem decodeSextets_eight (digit : ℕ) (digits : List ℕ) (val : UInt32) :
    decodeSextets (digit :: digits) val (-8) = decodeSextets digits (pushSextet val digit) (-2) := rfl

theorem decodeSextets_two (digit : ℕ) (digits : List ℕ) (val : UInt32) :
    decodeSextets (digit :: digits) val (-2) =
      UInt8.ofNat ((pushSextet val digit).toNat / 16 % 256) :: decodeSextets digits (pushSextet val digit) (-4) := by
  have hwindow : (pushSextet val digit >>> 4).toNat = (pushSextet val digit).toNat / 16 := by
    simp [UInt32.toNat_shiftRight, Nat.shiftRight_eq_div_pow]
  rw [← hwindow, ← toNat_and_255]
  rfl

theorem decodeSextets_four (digit : ℕ) (digits : List ℕ) (val : UInt32) :
    decodeSextets (digit :: digits) val (-4) =
      UInt8.ofNat ((pushSextet val digit).toNat / 4 % 256) :: decodeSextets digits (pushSextet val digit) (-6) := by
  have hwindow : (pushSextet val digit >>> 2).toNat = (pushSextet val digit).toNat / 4 := by
    simp [UInt32.toNat_shiftRight, Nat.shiftRight_eq_div_pow]
  rw [← hwindow, ← toNat_and_255]
  rfl

theorem decodeSextets_six (digit : ℕ) (digits : List ℕ) (val : UInt32) :
    decodeSextets (digit :: digits) val (-6) =
      UInt8.ofNat ((pushSextet val digit).toNat % 256) :: decodeSextets digits (pushSextet val digit) (-8) := by
  have hwindow : (pushSextet val digit >>> 0).toNat % 256 = (pushSextet val digit).toNat % 256 := by simp
  rw [← hwindow, ← toNat_and_255]
  rfl

/-- The loop from a boundary between groups. -/
theorem decodeSextets_eq {digits : List ℕ} (hdigits : ∀ d ∈ digits, d < 64) (val : UInt32) :
    decodeSextets digits val (-8) = (toBytes digits).map UInt8.ofNat := by
  induction digits using toBytes.induct generalizing val with
  | case1 => rfl
  | case2 x => rfl
  | case3 x y =>
      simp only [List.forall_mem_cons] at hdigits
      have hfirst := toNat_pushSextet val hdigits.1
      have hsecond := toNat_pushSextet (pushSextet val x) hdigits.2.1
      rw [decodeSextets_eight, decodeSextets_two, toBytes, List.map_cons]
      exact congrArg₂ _ (congrArg _ (by omega)) rfl
  | case4 x y z =>
      simp only [List.forall_mem_cons] at hdigits
      have hfirst := toNat_pushSextet val hdigits.1
      have hsecond := toNat_pushSextet (pushSextet val x) hdigits.2.1
      have hthird := toNat_pushSextet (pushSextet (pushSextet val x) y) hdigits.2.2.1
      rw [decodeSextets_eight, decodeSextets_two, decodeSextets_four]
      simp only [toBytes, List.map_cons, List.cons.injEq]
      refine ⟨congrArg _ ?_, congrArg _ ?_, rfl⟩ <;> omega
  | case5 x y z w rest ih =>
      simp only [List.forall_mem_cons] at hdigits
      have hfirst := toNat_pushSextet val hdigits.1
      have hsecond := toNat_pushSextet (pushSextet val x) hdigits.2.1
      have hthird := toNat_pushSextet (pushSextet (pushSextet val x) y) hdigits.2.2.1
      have hfourth := toNat_pushSextet (pushSextet (pushSextet (pushSextet val x) y) z) hdigits.2.2.2.1
      rw [decodeSextets_eight, decodeSextets_two, decodeSextets_four, decodeSextets_six, ih hdigits.2.2.2.2]
      simp only [toBytes, List.map_cons, List.cons.injEq, and_true]
      refine ⟨congrArg _ ?_, congrArg _ ?_, congrArg _ ?_⟩ <;> omega

/-! ### The alphabet -/

theorem base64_length : BASE64_CHARS.length = 64 := rfl

/-- No character is twice in the alphabet, and the padding is not. -/
theorem base64_nodup : BASE64_CHARS.Nodup ∧ 61 ∉ BASE64_CHARS :=
  of_decide_eq_true rfl

theorem base64Char_eq {d : ℕ} (hd : d < BASE64_CHARS.length) : base64Char d = BASE64_CHARS[d] :=
  List.getD_eq_getElem _ _ hd

theorem base64Digit_eq_some {c : UInt8} {d : ℕ} (hdigit : base64Digit c = some d) : d < 64 ∧ base64Char d = c := by
  obtain ⟨hlt, hplace, -⟩ := List.findIdx?_eq_some_iff_getElem.mp hdigit
  exact ⟨hlt.trans_eq base64_length, (base64Char_eq hlt).trans (of_decide_eq_true hplace)⟩

theorem base64Digit_base64Char {d : ℕ} (hd : d < 64) : base64Digit (base64Char d) = some d := by
  have hlt := hd.trans_eq base64_length.symm
  rw [base64Digit, base64Char_eq hlt, List.findIdx?_eq_some_iff_getElem]
  refine ⟨hlt, decide_eq_true rfl, fun i hi hsame => ?_⟩
  have hplaces := base64_nodup.1.getElem_inj_iff.mp (of_decide_eq_true hsame)
  omega

theorem base64Char_mem {d : ℕ} (hd : d < 64) : base64Char d ∈ BASE64_CHARS ∧ base64Char d ≠ 61 := by
  have hmem : base64Char d ∈ BASE64_CHARS := by
    rw [base64Char_eq (hd.trans_eq base64_length.symm)]
    exact List.getElem_mem _
  exact ⟨hmem, fun hpadding => base64_nodup.2 (hpadding ▸ hmem)⟩

theorem sextetsOf_lt (encoded : Bytes) : ∀ d ∈ sextetsOf encoded, d < 64 := by
  intro d hd
  obtain ⟨c, -, hdigit⟩ := List.mem_filterMap.mp hd
  exact (base64Digit_eq_some hdigit).1

theorem base64Decode_eq (encoded : Bytes) :
    base64Decode encoded = (toBytes (sextetsOf encoded)).map UInt8.ofNat := by
  rw [base64Decode, decode64_eq, decodeSextets_eq (sextetsOf_lt encoded)]

/-! ### Both ways -/

variable {digits : List ℕ} {encoded : Bytes}

/-- The parts of a text of the alphabet with padding behind it. -/
theorem takeWhile_map_append (hdigits : ∀ d ∈ digits, d < 64) (length : ℕ) :
    (digits.map base64Char ++ padding length).takeWhile (· ≠ 61) = digits.map base64Char ∧
      (digits.map base64Char ++ padding length).dropWhile (· ≠ 61) = padding length := by
  have hchars : ∀ c ∈ digits.map base64Char, decide (c ≠ 61) = true := by
    intro c hc
    obtain ⟨d, hd, rfl⟩ := List.mem_map.mp hc
    exact decide_eq_true (base64Char_mem (hdigits d hd)).2
  rw [List.takeWhile_append_of_pos hchars, List.dropWhile_append_of_pos hchars]
  simp [padding]

theorem filterMap_base64Char (hdigits : ∀ d ∈ digits, d < 64) :
    (digits.map base64Char).filterMap base64Digit = digits := by
  induction digits with
  | nil => rfl
  | cons d digits ih =>
      obtain ⟨hd, hrest⟩ := List.forall_mem_cons.mp hdigits
      rw [List.map_cons, List.filterMap_cons_some (base64Digit_base64Char hd), ih hrest]

theorem sextetsOf_map_append (hdigits : ∀ d ∈ digits, d < 64) (length : ℕ) :
    sextetsOf (digits.map base64Char ++ padding length) = digits := by
  rw [sextetsOf, (takeWhile_map_append hdigits length).1, filterMap_base64Char hdigits]

theorem base64Decode_base64Encode (data : Bytes) : base64Decode (base64Encode data) = data := by
  have hbytes := byteDigits_lt data
  rw [base64Encode_eq, base64Decode_eq, sextetsOf_map_append (ofBytes_lt hbytes), toBytes_ofBytes hbytes,
    map_ofNat_byteDigits]

/-- Nothing but characters of the alphabet up to the padding, which fills the last group of four and ends the text; no
character alone in its group, and no bits set that do not fill a byte. -/
structure Canonical64 (encoded : Bytes) : Prop where
  alphabet : ∀ c ∈ encoded.takeWhile (· ≠ 61), c ∈ BASE64_CHARS
  padded : encoded.dropWhile (· ≠ 61) = padding (encoded.takeWhile (· ≠ 61)).length
  whole : Whole (sextetsOf encoded)

theorem canonical64_base64Encode (data : Bytes) : Canonical64 (base64Encode data) := by
  have hdigits := ofBytes_lt (byteDigits_lt data)
  obtain ⟨hfront, hpadding⟩ := takeWhile_map_append hdigits (ofBytes (byteDigits data)).length
  rw [base64Encode_eq]
  constructor
  case alphabet =>
    rw [hfront]
    intro c hc
    obtain ⟨d, hd, rfl⟩ := List.mem_map.mp hc
    exact (base64Char_mem (hdigits d hd)).1
  case padded => rw [hfront, hpadding, List.length_map]
  case whole =>
    rw [sextetsOf_map_append hdigits]
    exact whole_ofBytes _

/-- Characters of the alphabet are those of their digits. -/
theorem map_filterMap {text : Bytes} (halphabet : ∀ c ∈ text, c ∈ BASE64_CHARS) :
    (text.filterMap base64Digit).map base64Char = text := by
  induction text with
  | nil => rfl
  | cons c text ih =>
      obtain ⟨hc, hrest⟩ := List.forall_mem_cons.mp halphabet
      cases hdigit : base64Digit c with
      | none =>
          rw [base64Digit, List.findIdx?_eq_none_iff] at hdigit
          exact absurd rfl (of_decide_eq_false (hdigit c hc))
      | some d => rw [List.filterMap_cons_some hdigit, List.map_cons, (base64Digit_eq_some hdigit).2, ih hrest]

/-- What a text is decoded to is encoded as the same text exactly if the text is canonical. -/
theorem base64Encode_eq_iff : base64Encode (base64Decode encoded) = encoded ↔ Canonical64 encoded := by
  constructor
  · intro hsame
    rw [← hsame]
    exact canonical64_base64Encode _
  · intro hcanonical
    have hdigits := sextetsOf_lt encoded
    have hfront : (sextetsOf encoded).map base64Char = encoded.takeWhile (· ≠ 61) := map_filterMap hcanonical.alphabet
    have hlength := congrArg List.length hfront
    rw [List.length_map] at hlength
    rw [base64Encode_eq, base64Decode_eq, byteDigits_map_ofNat (toBytes_lt hdigits),
      ofBytes_toBytes hcanonical.whole hdigits, hfront, hlength, ← hcanonical.padded, List.takeWhile_append_dropWhile]

/-! ### Checksums -/

variable {checksum : Bytes → Bytes32} {data decoded output : Bytes}

theorem length_checksum (checksum : Bytes → Bytes32) (data : Bytes) : ((checksum data).1.take 4).length = 4 := by
  rw [List.length_take, (checksum data).2]
  rfl

/-- Bytes with their checksum are read back unless there are none. -/
theorem dropChecksum_append_iff :
    dropChecksum checksum (data ++ (checksum data).1.take 4) = some data ↔ data ≠ [] := by
  have hlength : (data ++ (checksum data).1.take 4).length - 4 = data.length := by
    rw [List.length_append, length_checksum, Nat.add_sub_cancel]
  constructor
  · intro hdrop
    exact (dropChecksum_length hdrop).2
  · intro hne
    have hpos := List.length_pos_iff.mpr hne
    rw [dropChecksum, if_neg (by omega)]
    dsimp only
    rw [hlength, List.take_left, List.drop_left, if_pos rfl]

theorem append_checksum (hdrop : dropChecksum checksum decoded = some output) :
    output ++ (checksum output).1.take 4 = decoded := by
  unfold dropChecksum at hdrop
  dsimp only at hdrop
  split_ifs at hdrop with hshort hsum
  obtain rfl := Option.some.inj hdrop
  rw [← hsum, List.take_append_drop]

theorem append_checksum_ne_nil : data ++ (checksum data).1.take 4 ≠ [] := by
  intro hnil
  have hlength := length_checksum checksum data
  rw [(List.append_eq_nil_iff.mp hnil).2] at hlength
  cases hlength

/-- Both codecs read back what they write unless it is empty. What Base58 accepts is written as the same text exactly if
the text has no NUL, what Base64 accepts exactly if the text is canonical. -/
theorem codecs_exact_iff (sha256 : Bytes → Bytes32) :
    (∀ data, base58CheckDecode sha256 (base58CheckEncode sha256 data) = some data ↔ data ≠ []) ∧
    (∀ data, base64CheckDecode sha256 (base64CheckEncode sha256 data) = some data ↔ data ≠ []) ∧
    (∀ encoded output, base58CheckDecode sha256 encoded = some output →
      (base58CheckEncode sha256 output = encoded ↔ 0 ∉ encoded)) ∧
    ∀ encoded output, base64CheckDecode sha256 encoded = some output →
      (base64CheckEncode sha256 output = encoded ↔ Canonical64 encoded) := by
  refine ⟨fun data => ?_, fun data => ?_, fun encoded output hdecode => ?_, fun encoded output hdecode => ?_⟩
  · rw [base58CheckDecode, base58CheckEncode, base58Decode_base58Encode append_checksum_ne_nil, Option.bind_some]
    exact dropChecksum_append_iff
  · rw [base64CheckDecode, base64CheckEncode, base64Decode_base64Encode]
    exact dropChecksum_append_iff
  · obtain ⟨decoded, hdecoded, hdrop⟩ := Option.bind_eq_some_iff.mp hdecode
    rw [base58CheckEncode, append_checksum hdrop]
    exact base58Encode_eq_iff hdecoded
  · rw [base64CheckEncode, append_checksum hdecode]
    exact base64Encode_eq_iff

/-! ### Texts that are not exact -/

/-- A hash of zeros. -/
def zeroHash (_ : Bytes) : Bytes32 := ⟨List.replicate 32 0, by decide⟩

theorem zeroHash_exact :
    base58CheckDecode zeroHash (base58CheckEncode zeroHash [29]) = some [29] ∧
      base58CheckEncode zeroHash [29] = ascii "4GmR591" ∧ base64CheckEncode zeroHash [1] = ascii "AQAAAAA=" := by
  obtain ⟨hround, -, hexact58, hexact64⟩ := codecs_exact_iff zeroHash
  refine ⟨(hround [29]).mpr (by decide), (hexact58 _ _ ?_).mpr (by decide +kernel), (hexact64 _ _ ?_).mpr ?_⟩
  · decide +kernel
  · decide +kernel
  · exact ⟨by decide +kernel, by decide +kernel, by decide +kernel⟩

/-- No bytes are not read back; a NUL is read as one more than the last digit, and a blank is skipped and the padding
left out, with the same bytes as a result. -/
theorem zeroHash_not_exact :
    base58CheckDecode zeroHash (base58CheckEncode zeroHash []) ≠ some [] ∧
      base64CheckDecode zeroHash (base64CheckEncode zeroHash []) ≠ some [] ∧
      (base58CheckDecode zeroHash (ascii "4GmR58" ++ [0]) = some [29] ∧
        base58CheckEncode zeroHash [29] ≠ ascii "4GmR58" ++ [0]) ∧
      base64CheckDecode zeroHash (ascii "AQ AAAAA") = some [1] ∧
        base64CheckEncode zeroHash [1] ≠ ascii "AQ AAAAA" := by
  decide +kernel

end Gridnet
