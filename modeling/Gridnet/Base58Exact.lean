import Gridnet.RadixChange
import Gridnet.ReferenceCompiler
import Mathlib.Data.List.GetD

/-! Base58 as a change of radix: the loops of both directions compute the digits of one number in their buffers. -/

namespace Gridnet

open Radix

/-! ### Buffers -/

theorem le_foldl_value {factor : ℕ} (hfactor : 0 < factor) (digits : List ℕ) (number : ℕ) :
    number ≤ digits.foldl (fun n d => d + factor * n) number := by
  induction digits generalizing number with
  | nil => exact le_rfl
  | cons d digits ih =>
      refine le_trans ?_ (ih (d + factor * number))
      exact (Nat.le_mul_of_pos_left number hfactor).trans (Nat.le_add_left _ d)

/-- The loop over all digits computes those of the whole number, when the buffer has room for it. -/
theorem foldl_carryInto {factor base size : ℕ} (hbase : 1 < base) (hfactor : 0 < factor) (digits : List ℕ) {number : ℕ}
    (hfits : digits.foldl (fun n d => d + factor * n) number < base ^ size) :
    digits.foldl (carryInto factor base size) (Nat.digits base number) =
      Nat.digits base (digits.foldl (fun n d => d + factor * n) number) := by
  induction digits generalizing number with
  | nil => rfl
  | cons d digits ih =>
      rw [List.foldl_cons] at hfits
      rw [List.foldl_cons, List.foldl_cons, Tools.carryInto_digits hbase hfactor number d
        ((le_foldl_value hfactor digits _).trans_lt hfits)]
      exact ih hfits

/-- The loop over the significant digits, from the empty buffer. -/
theorem foldl_carryInto_significant {factor base size : ℕ} (hbase : 1 < base) (hfactor : 0 < factor) (digits : List ℕ)
    (hfits : value factor digits < base ^ size) :
    (digits.dropWhile (· = 0)).foldl (carryInto factor base size) [] = Nat.digits base (value factor digits) := by
  rw [← value_dropWhile, value_eq_foldl] at hfits ⊢
  have hdigits := foldl_carryInto hbase hfactor (digits.dropWhile (· = 0)) hfits
  rwa [Nat.digits_zero] at hdigits

/-- The buffer of the encoder is long enough. -/
theorem base58_encodeBuffer (len : ℕ) : 256 ^ len < 58 ^ (len * 138 / 100 + 1) := by
  have hsize : 138 * len + 1 ≤ 100 * (len * 138 / 100 + 1) := by omega
  refine lt_of_pow_lt_pow_left₀ 100 (Nat.zero_le _) ?_
  calc (256 ^ len) ^ 100
      = (256 ^ 100) ^ len := by rw [← pow_mul, ← pow_mul, Nat.mul_comm]
    _ ≤ (58 ^ 138) ^ len := Nat.pow_le_pow_left (by norm_num) len
    _ = 58 ^ (138 * len) := by rw [← pow_mul]
    _ < 58 ^ (100 * (len * 138 / 100 + 1)) := Nat.pow_lt_pow_right (by decide) (by omega)
    _ = (58 ^ (len * 138 / 100 + 1)) ^ 100 := by rw [← pow_mul, Nat.mul_comm 100]

theorem base58_decodeBuffer (len : ℕ) : 58 ^ len < 256 ^ (len * 733 / 1000 + 1) := by
  have hbuffer := Tools.base58_buffer len
  omega

/-! ### Encoding -/

def base58Char (digit : ℕ) : UInt8 := BASE58_CHARS.getD digit 0

/-- Bytes as digits. -/
def byteDigits (data : Bytes) : List ℕ := data.map UInt8.toNat

theorem byteDigits_lt (data : Bytes) : ∀ d ∈ byteDigits data, d < 256 := by
  intro d hd
  obtain ⟨byte, -, rfl⟩ := List.mem_map.mp hd
  exact byte.toNat_lt

theorem map_ofNat_byteDigits (data : Bytes) : (byteDigits data).map UInt8.ofNat = data := by
  simp [byteDigits, Function.comp_def]

theorem byteDigits_map_ofNat {digits : List ℕ} (hdigits : ∀ d ∈ digits, d < 256) :
    byteDigits (digits.map UInt8.ofNat) = digits := by
  rw [byteDigits, List.map_map]
  calc digits.map (UInt8.toNat ∘ UInt8.ofNat)
      = digits.map id := List.map_congr_left fun d hd => UInt8.toNat_ofNat_of_lt' (hdigits d hd)
    _ = digits := List.map_id digits

/-- What is behind the characters of a kind in front. -/
theorem drop_takeWhile {α : Type} (p : α → Bool) (l : List α) : l.drop (l.takeWhile p).length = l.dropWhile p := by
  induction l with
  | nil => rfl
  | cons a l ih => cases hp : p a <;> simp [hp, ih]

/-- Zeros are zero digits. -/
theorem toNat_eq_zero : (fun d : ℕ => decide (d = 0)) ∘ UInt8.toNat = fun byte : UInt8 => decide (byte = 0) := by
  funext byte
  exact decide_eq_decide.mpr (UInt8.toNat_inj (b := 0))

theorem base58Encode_eq (data : Bytes) : base58Encode data = (change 256 58 (byteDigits data)).map base58Char := by
  have hvalue : value 256 (byteDigits data) < 58 ^ (data.length * 138 / 100 + 1) := by
    have hlt := value_lt (by decide) (byteDigits_lt data)
    rw [byteDigits, List.length_map] at hlt
    exact hlt.trans (base58_encodeBuffer data.length)
  have hdigits := foldl_carryInto_significant (by decide) (by decide) (byteDigits data) hvalue
  rw [byteDigits, List.dropWhile_map, toNat_eq_zero, List.foldl_map, ← byteDigits] at hdigits
  unfold base58Encode
  dsimp only
  rw [drop_takeWhile, hdigits, change, leadingZeros, byteDigits, List.takeWhile_map, toNat_eq_zero, List.length_map,
    List.map_append, List.map_replicate]
  rfl

/-! ### Decoding -/

/-- A loop that stops at the first character that is no digit is the loop over the digits. -/
theorem foldlM_digits {α β γ : Type} (digit : α → Option β) (step : γ → β → γ) (text : List α) (acc : γ) :
    text.foldlM (fun acc c => (digit c).map (step acc)) acc =
      (text.mapM digit).map fun digits => digits.foldl step acc := by
  induction text generalizing acc with
  | nil => rfl
  | cons c text ih =>
      rw [List.foldlM_cons, List.mapM_cons]
      cases digit c with
      | none => rfl
      | some d =>
          rw [Option.map_some, Option.bind_eq_bind, Option.bind_some, ih]
          cases text.mapM digit <;> rfl

theorem base58Digit_base58Char {d : ℕ} (hd : d < 58) : base58Digit (base58Char d) = some d := by
  revert d
  decide +kernel

/-- A character other than NUL is read as its place in the alphabet. -/
theorem base58Digit_eq_some {c : UInt8} {d : ℕ} (hdigit : base58Digit c = some d) (hc : c ≠ 0) :
    d < 58 ∧ base58Char d = c := by
  obtain ⟨hlt, hplace, -⟩ := List.findIdx?_eq_some_iff_getElem.mp hdigit
  have hchar := of_decide_eq_true hplace
  by_cases hd : d < BASE58_CHARS.length
  · rw [List.getElem_append_left hd] at hchar
    exact ⟨hd, by rw [base58Char, List.getD_eq_getElem _ _ hd, hchar]⟩
  · rw [List.getElem_append_right (Nat.not_lt.mp hd), List.getElem_singleton] at hchar
    exact absurd hchar.symm hc

/-- Only the digit zero is written as a one, whatever a digit is. -/
theorem base58Char_eq_one : (fun c : UInt8 => decide (c = 49)) ∘ base58Char = fun d : ℕ => decide (d = 0) := by
  funext d
  by_cases hd : d < 58
  · revert d
    decide +kernel
  · have hchar : base58Char d = 0 := List.getD_eq_default _ _ (Nat.not_lt.mp hd)
    have hzero : d ≠ 0 := by omega
    simp [hchar, hzero]

theorem mapM_base58Char {digits : List ℕ} (hdigits : ∀ d ∈ digits, d < 58) :
    (digits.map base58Char).mapM base58Digit = some digits := by
  induction digits with
  | nil => rfl
  | cons d digits ih =>
      obtain ⟨hd, hrest⟩ := List.forall_mem_cons.mp hdigits
      rw [List.map_cons, List.mapM_cons, base58Digit_base58Char hd, ih hrest]
      rfl

/-- A text without NUL that is read at all is that of its digits. -/
theorem eq_map_of_mapM {text : Bytes} {digits : List ℕ} (hnul : 0 ∉ text)
    (hdigits : text.mapM base58Digit = some digits) : (∀ d ∈ digits, d < 58) ∧ text = digits.map base58Char := by
  induction text generalizing digits with
  | nil =>
      cases hdigits
      exact ⟨fun d hd => absurd hd List.not_mem_nil, rfl⟩
  | cons c text ih =>
      rw [List.mapM_cons] at hdigits
      obtain ⟨d, hd, hmap⟩ := Option.bind_eq_some_iff.mp hdigits
      obtain ⟨rest, hrest, hcons⟩ := Option.bind_eq_some_iff.mp hmap
      cases hcons
      rw [List.mem_cons, not_or] at hnul
      obtain ⟨hlt, hchar⟩ := base58Digit_eq_some hd (Ne.symm hnul.1)
      obtain ⟨hsmall, htext⟩ := ih hnul.2 hrest
      exact ⟨List.forall_mem_cons.mpr ⟨hlt, hsmall⟩, by rw [List.map_cons, hchar, ← htext]⟩

theorem base58Decode_map {digits : List ℕ} (hne : digits ≠ []) (hdigits : ∀ d ∈ digits, d < 58) :
    base58Decode (digits.map base58Char) = some ((change 58 256 digits).map UInt8.ofNat) := by
  have hvalue : value 58 digits < 256 ^ ((digits.map base58Char).length * 733 / 1000 + 1) := by
    have hlt := value_lt (by decide) hdigits
    rw [List.length_map]
    exact hlt.trans (base58_decodeBuffer digits.length)
  have hsignificant : ∀ d ∈ digits.dropWhile (· = 0), d < 58 :=
    fun d hd => hdigits d ((List.dropWhile_suffix _).mem hd)
  unfold base58Decode
  rw [if_neg (by simpa using hne)]
  dsimp only
  rw [drop_takeWhile, List.takeWhile_map, List.dropWhile_map, base58Char_eq_one, foldlM_digits,
    mapM_base58Char hsignificant, Option.map_some, Option.map_some,
    foldl_carryInto_significant (by decide) (by decide) digits hvalue, List.length_map, change, leadingZeros,
    List.map_append, List.map_replicate]
  rfl

/-! ### Both ways -/

theorem base58Decode_base58Encode {data : Bytes} (hne : data ≠ []) : base58Decode (base58Encode data) = some data := by
  have hdigits := byteDigits_lt data
  have hback : change 58 256 (change 256 58 (byteDigits data)) = byteDigits data :=
    change_change (by decide) hdigits
  have hsome : change 256 58 (byteDigits data) ≠ [] :=
    change_ne_nil (by decide) hdigits (by simpa [byteDigits] using hne)
  rw [base58Encode_eq, base58Decode_map hsome (change_lt (by decide)), hback, map_ofNat_byteDigits]

theorem base58Char_ne_nul {d : ℕ} (hd : d < 58) : base58Char d ≠ 0 := by
  revert d
  decide +kernel

/-- No text of the encoder has a NUL. -/
theorem nul_notMem_base58Encode (data : Bytes) : 0 ∉ base58Encode data := by
  rw [base58Encode_eq, List.mem_map]
  rintro ⟨d, hd, hchar⟩
  exact base58Char_ne_nul (change_lt (by decide) d hd) hchar

/-- Every character of a text that is decoded is read, the ones in front too. -/
theorem mapM_of_base58Decode {encoded decoded : Bytes} (hdecode : base58Decode encoded = some decoded) :
    encoded ≠ [] ∧ ∃ digits, encoded.mapM base58Digit = some digits := by
  unfold base58Decode at hdecode
  split_ifs at hdecode with hempty
  dsimp only at hdecode
  rw [drop_takeWhile, foldlM_digits] at hdecode
  obtain ⟨b256, hb256, -⟩ := Option.map_eq_some_iff.mp hdecode
  obtain ⟨significant, hsignificant, -⟩ := Option.map_eq_some_iff.mp hb256
  refine ⟨hempty, ?_⟩
  clear hdecode hb256 hempty
  induction encoded with
  | nil => exact ⟨[], rfl⟩
  | cons c encoded ih =>
      by_cases hc : c = 49
      · subst hc
        obtain ⟨digits, hdigits⟩ := ih hsignificant
        refine ⟨0 :: digits, ?_⟩
        rw [List.mapM_cons, hdigits]
        rfl
      · rw [List.dropWhile_cons_of_neg (by simpa using hc)] at hsignificant
        exact ⟨significant, hsignificant⟩

/-- What a text is decoded to is encoded as the same text exactly if the text has no NUL. -/
theorem base58Encode_eq_iff {encoded decoded : Bytes} (hdecode : base58Decode encoded = some decoded) :
    base58Encode decoded = encoded ↔ 0 ∉ encoded := by
  constructor
  · rintro rfl
    exact nul_notMem_base58Encode decoded
  · intro hnul
    obtain ⟨hsome, digits, hread⟩ := mapM_of_base58Decode hdecode
    obtain ⟨hdigits, rfl⟩ := eq_map_of_mapM hnul hread
    rw [base58Decode_map (by simpa using hsome) hdigits] at hdecode
    obtain rfl := Option.some.inj hdecode
    rw [base58Encode_eq, byteDigits_map_ofNat (change_lt (by decide)), change_change (by decide) hdigits]

end Gridnet
