import Gridnet.BytecodeModel
import Mathlib.Data.Nat.Bitwise

/-! The fields of an opcode read back. Each reader is given the bytecode and the offset of a field
that was written there: what stands before and after it does not matter. -/

namespace Gridnet

theorem shift_or_toNat (n : UInt64) (b : UInt8) :
    ((n <<< 8) ||| b.toUInt64).toNat = (256 * n.toNat + b.toNat) % 2 ^ 64 := by
  have hb : b.toNat < 2 ^ 8 := b.toNat_lt
  have hshift : (n <<< 8).toNat = 2 ^ 8 * (n.toNat % 2 ^ 56) := by
    rw [UInt64.toNat_shiftLeft, Nat.shiftLeft_eq]
    simp
    omega
  rw [UInt64.toNat_or, hshift, UInt8.toNat_toUInt64, ← Nat.two_pow_add_eq_or_of_lt hb]
  omega

/-- A number read from bytes, as the value of those bytes in 64 bits. -/
theorem readNumber_toNat (bytes : Bytes) :
    (readNumber bytes).toNat = BytesToBigInt bytes.reverse % 2 ^ 64 := by
  induction bytes using List.reverseRecOn with
  | nil => rfl
  | append_singleton bytes b ih =>
      rw [readNumber, List.foldl_concat, ← readNumber, shift_or_toNat, ih, List.reverse_append,
        List.reverse_singleton, List.singleton_append, BytesToBigInt_cons]
      omega

theorem readNumber_numBytes {n : ℕ} (hn : n < 2 ^ 64) : (readNumber (numBytes n)).toNat = n := by
  rw [readNumber_toNat, numBytes, List.reverse_reverse, BytesToBigInt_BigIntToBytes,
    Nat.mod_eq_of_lt hn]

theorem numBytes_length_le {n : ℕ} (hn : n < 2 ^ 64) : (numBytes n).length ≤ 8 := by
  rw [numBytes, List.length_reverse, BigIntToBytes]
  split_ifs with hzero
  · simp
  · rw [List.length_map]
    exact (Nat.digits_length_le_iff (by decide) n).mpr (by simpa using hn)

theorem low_bits_toNat (b : UInt8) : (b &&& 0x7F).toNat = b.toNat % 128 := by
  rw [UInt8.toNat_and]
  exact Nat.and_two_pow_sub_one_eq_mod b.toNat 7

theorem high_bit_iff (b : UInt8) : b &&& 0x80 ≠ 0 ↔ 128 ≤ b.toNat := by
  have hlt : b.toNat < 256 := b.toNat_lt
  have hbit : (b &&& 0x80).toNat = (b.toNat / 128 % 2 == 1).toNat * 128 := by
    rw [UInt8.toNat_and]
    exact (Nat.and_two_pow b.toNat 7).trans (by rw [Nat.testBit_eq_decide_div_mod_eq]; rfl)
  rw [Ne, ← UInt8.toNat_inj, hbit]
  by_cases hhigh : 128 ≤ b.toNat
  · have hdiv : b.toNat / 128 % 2 = 1 := by omega
    simp [hhigh, hdiv]
  · have hdiv : b.toNat / 128 % 2 = 0 := by omega
    simp [hhigh, hdiv]

theorem idBytes_short {id : UInt64} (hid : id.toNat ≤ 127) : idBytes id = [id.toUInt8] := by
  rw [idBytes, if_neg]
  rw [UInt64.lt_iff_toNat_lt]
  exact Nat.not_lt.mpr hid

theorem idBytes_long {id : UInt64} (hlong : 127 < id.toNat) (hid : id.toNat ≤ 0x7FFF) :
    ∃ first second : UInt8, idBytes id = [first, second] ∧ first.toNat = 128 + id.toNat / 256 ∧
      second.toNat = id.toNat % 256 := by
  have hlt : (127 : UInt64) < id := UInt64.lt_iff_toNat_lt.mpr hlong
  refine ⟨_, _, by rw [idBytes, if_pos hlt], ?_, ?_⟩
  · have hor := Nat.two_pow_add_eq_or_of_lt (i := 7) (b := id.toNat / 256) (by omega) 1
    have hshift : (id >>> 8).toNat = id.toNat / 256 := by
      rw [UInt64.toNat_shiftRight, Nat.shiftRight_eq_div_pow]
      rfl
    rw [UInt64.toNat_toUInt8, UInt64.toNat_or, hshift, Nat.or_comm]
    have hmask : (0x80 : UInt64).toNat = 2 ^ 7 * 1 := rfl
    rw [hmask, ← hor]
    omega
  · rw [UInt64.toNat_toUInt8, UInt64.toNat_and]
    have hmask : (0xFF : UInt64).toNat = 2 ^ 8 - 1 := rfl
    rw [hmask, Nat.and_two_pow_sub_one_eq_mod]
    omega

theorem getElem?_field (before : Bytes) (b : UInt8) (after : Bytes) :
    (before ++ b :: after)[before.length]? = some b := by
  simp

/-- An ID that was written is read back. -/
theorem getIDBits_idBytes (before after : Bytes) {id : UInt64} (hid : id.toNat ≤ 0x7FFF) :
    getIDBits (before ++ (idBytes id ++ after)) before.length =
      some (id, before.length + (idBytes id).length) := by
  by_cases hlong : 127 < id.toNat
  · obtain ⟨first, second, hbytes, hfirst, hsecond⟩ := idBytes_long hlong hid
    rw [hbytes]
    have hat : (before ++ ([first, second] ++ after))[before.length + 1]? = some second := by
      simp
    have hhigh : first &&& 0x80 ≠ 0 := (high_bit_iff first).mpr (by omega)
    unfold getIDBits
    rw [show before ++ ([first, second] ++ after) = before ++ first :: second :: after from rfl]
      at hat ⊢
    rw [getElem?_field]
    dsimp only
    rw [if_pos hhigh, hat]
    dsimp only
    congr 2
    apply UInt64.toNat.inj
    rw [shift_or_toNat, UInt8.toNat_toUInt64, low_bits_toNat, hfirst, hsecond]
    omega
  · rw [idBytes_short (by omega), List.singleton_append]
    have hlow : id.toUInt8.toNat = id.toNat := by
      rw [UInt64.toNat_toUInt8]
      omega
    have hhigh : ¬ id.toUInt8 &&& 0x80 ≠ 0 := by
      rw [high_bit_iff, hlow]
      omega
    unfold getIDBits
    rw [getElem?_field]
    dsimp only
    rw [if_neg hhigh]
    congr 2
    apply UInt64.toNat.inj
    rw [UInt8.toNat_toUInt64, hlow]

theorem idBytes_ne_nil (id : UInt64) : idBytes id ≠ [] := by
  unfold idBytes
  split_ifs <;> simp

/-- The first byte of a long length says how many bytes follow. -/
theorem lengthBits_first {k : ℕ} (hk : k ≤ 8) :
    (0x80 ||| UInt8.ofNat k) &&& 0x80 ≠ 0 ∧ ((0x80 ||| UInt8.ofNat k) &&& 0x7F).toNat = k := by
  have hor := Nat.two_pow_add_eq_or_of_lt (i := 7) (b := k) (by omega) 1
  have hvalue : (0x80 ||| UInt8.ofNat k).toNat = 128 + k := by
    rw [UInt8.toNat_or, UInt8.toNat_ofNat', Nat.mod_eq_of_lt (by omega)]
    exact hor.symm
  rw [high_bit_iff, low_bits_toNat, hvalue]
  omega

/-- A length that was written is read back. -/
theorem getContentLength_lengthBits (before after : Bytes) {size : ℕ} (hsize : size < 2 ^ 64) :
    ∃ length : UInt64, length.toNat = size ∧
      getContentLength (before ++ (lengthBits size ++ after)) before.length =
        some (length, before.length + (lengthBits size).length) := by
  unfold lengthBits
  by_cases hshort : size ≤ 127
  · rw [if_pos hshort]
    have hvalue : (UInt8.ofNat size).toNat = size := by
      rw [UInt8.toNat_ofNat', Nat.mod_eq_of_lt (by omega)]
    have hhigh : ¬ UInt8.ofNat size &&& 0x80 ≠ 0 := by
      rw [high_bit_iff, hvalue]
      omega
    refine ⟨(UInt8.ofNat size).toUInt64, by rw [UInt8.toNat_toUInt64, hvalue], ?_⟩
    rw [List.singleton_append]
    unfold getContentLength
    rw [getElem?_field]
    dsimp only
    rw [if_neg hhigh]
    rfl
  · rw [if_neg hshort]
    obtain ⟨hhigh, hcount⟩ := lengthBits_first (numBytes_length_le hsize)
    refine ⟨readNumber (numBytes size), readNumber_numBytes hsize, ?_⟩
    have hfit : ¬ (before ++ (0x80 ||| UInt8.ofNat (numBytes size).length) ::
        (numBytes size ++ after)).length < before.length + 1 + (numBytes size).length := by
      simp only [List.length_append, List.length_cons]
      omega
    have hslice : ((before ++ (0x80 ||| UInt8.ofNat (numBytes size).length) ::
        (numBytes size ++ after)).drop (before.length + 1)).take (numBytes size).length =
          numBytes size := by
      rw [List.drop_append, List.drop_eq_nil_of_le (Nat.le_succ _)]
      simp
    rw [List.cons_append]
    unfold getContentLength
    rw [getElem?_field]
    dsimp only
    rw [if_pos hhigh, hcount, if_neg hfit, hslice]
    simp only [List.length_cons]
    congr 2
    omega

/-- Content that was written is read back. -/
theorem getContentBits_content (before content after : Bytes) {length : UInt64}
    (hlength : length.toNat = content.length) :
    getContentBits (before ++ (content ++ after)) before.length length = .ok content := by
  have hfit : before.length + content.length ≤ (before ++ (content ++ after)).length := by
    simp only [List.length_append]
    omega
  have hwrap : (before.length + content.length) % 2 ^ 64 ≤ before.length + content.length :=
    Nat.mod_le _ _
  unfold getContentBits
  rw [hlength, if_neg (by omega), if_neg (by omega)]
  simp

/-- An opcode is at least one byte long: the offset after it is a later one, and within the
bytecode. -/
theorem getIDBits_offset {code : Bytes} {offset offset' : ℕ} {id : UInt64}
    (hread : getIDBits code offset = some (id, offset')) :
    offset < offset' ∧ offset' ≤ code.length := by
  unfold getIDBits at hread
  cases hfirst : code[offset]? with
  | none => rw [hfirst] at hread; cases hread
  | some first =>
      obtain ⟨hlt, -⟩ := List.getElem?_eq_some_iff.mp hfirst
      rw [hfirst] at hread
      dsimp only at hread
      split_ifs at hread with hhigh
      · cases hsecond : code[offset + 1]? with
        | none => rw [hsecond] at hread; cases hread
        | some second =>
            obtain ⟨hlt', -⟩ := List.getElem?_eq_some_iff.mp hsecond
            rw [hsecond] at hread
            cases hread
            omega
      · cases hread
        omega

theorem getContentLength_offset {code : Bytes} {offset offset' : ℕ} {length : UInt64}
    (hread : getContentLength code offset = some (length, offset')) :
    offset < offset' ∧ offset' ≤ code.length := by
  unfold getContentLength at hread
  cases hfirst : code[offset]? with
  | none => rw [hfirst] at hread; cases hread
  | some first =>
      obtain ⟨hlt, -⟩ := List.getElem?_eq_some_iff.mp hfirst
      rw [hfirst] at hread
      dsimp only at hread
      split_ifs at hread with hhigh hfit
      · cases hread
        omega
      · cases hread
        omega

theorem getContentBits_offset {code content : Bytes} {offset : ℕ} {length : UInt64}
    (hread : getContentBits code offset length = .ok content) :
    offset + length.toNat ≤ code.length := by
  unfold getContentBits at hread
  split_ifs at hread with hwrap hfit
  omega

/-- The value of decimal digits, as a number to base ten. -/
theorem digitsValue_eq (digits : Bytes) :
    digitsValue digits = Nat.ofDigits 10 (digits.reverse.map fun c => c.toNat - 48) := by
  induction digits using List.reverseRecOn with
  | nil => rfl
  | append_singleton digits c ih =>
      rw [digitsValue, List.foldl_concat, ← digitsValue, ih, List.reverse_append,
        List.reverse_singleton, List.singleton_append, List.map_cons, Nat.ofDigits_cons]
      omega

/-- Digits without a leading zero are the decimal notation of their value. -/
theorem decimal_digitsValue {digits : Bytes} (hdigits : unsignedNrR digits = true)
    (hzero : digits = [48] ∨ digits.head? ≠ some 48) : decimal (digitsValue digits) = digits := by
  obtain rfl | hhead := hzero
  · rfl
  obtain ⟨hne, hall⟩ : digits ≠ [] ∧ ∀ c ∈ digits, 48 ≤ c.toNat ∧ c.toNat ≤ 57 := by
    simpa [unsignedNrR, isDigit, UInt8.le_iff_toNat_le] using hdigits
  have hread : Nat.digits 10 (digitsValue digits) =
      digits.reverse.map fun c => c.toNat - 48 := by
    rw [digitsValue_eq]
    apply Nat.digits_ofDigits 10 (by decide)
    · rintro d hd
      obtain ⟨c, hc, rfl⟩ := List.mem_map.mp hd
      have := hall c (List.mem_reverse.mp hc)
      omega
    · rintro -
      cases digits with
      | nil => exact absurd rfl hne
      | cons c rest =>
          have hc := hall c List.mem_cons_self
          have hc' : c.toNat ≠ 48 := fun h => hhead (congrArg some (UInt8.toNat.inj h))
          simp only [List.reverse_cons, List.map_append, List.map_cons, List.map_nil,
            List.getLast_append_singleton]
          omega
  have hvalue : digitsValue digits ≠ 0 := by
    intro h
    rw [h, Nat.digits_zero] at hread
    exact hne (by simpa using hread.symm)
  rw [decimal, if_neg hvalue, hread, ← List.map_reverse, List.reverse_reverse, List.map_map]
  calc digits.map _ = digits.map id := by
        apply List.map_congr_left
        intro c hc
        have := hall c hc
        apply UInt8.toNat.inj
        simp only [Function.comp_apply, id_eq, UInt8.toNat_ofNat']
        omega
    _ = digits := List.map_id digits

/-- Decimal notation is made of digits. -/
theorem decimal_digits (n : ℕ) : ∀ c ∈ decimal n, 48 ≤ c.toNat ∧ c.toNat ≤ 57 := by
  intro c hc
  unfold decimal at hc
  split_ifs at hc with hzero
  · rw [List.mem_singleton.mp hc]
    decide
  · obtain ⟨d, hd, rfl⟩ := List.mem_map.mp hc
    have hlt := Nat.digits_lt_base (by decide) (List.mem_reverse.mp hd)
    rw [UInt8.toNat_ofNat']
    omega

theorem decimal_ne_nil (n : ℕ) : decimal n ≠ [] := by
  unfold decimal
  split_ifs with hzero
  · exact List.cons_ne_nil _ _
  · simpa using Nat.digits_ne_nil_iff_ne_zero.mpr hzero

/-- Decimal notation has no leading zero. -/
theorem decimal_head (n : ℕ) : decimal n = [48] ∨ (decimal n).head? ≠ some 48 := by
  unfold decimal
  split_ifs with hzero
  · exact .inl rfl
  · right
    have hdigits := Nat.digits_ne_nil_iff_ne_zero (b := 10).mpr hzero
    have hlast := Nat.getLast_digit_ne_zero 10 hzero
    have hlt := Nat.digits_lt_base (by decide) (List.getLast_mem hdigits)
    rw [List.head?_map, List.head?_reverse, List.getLast?_eq_some_getLast hdigits, Option.map_some]
    intro h
    have hvalue := congrArg UInt8.toNat (Option.some.inj h)
    rw [UInt8.toNat_ofNat'] at hvalue
    have hnumeral : UInt8.toNat 48 = 48 := rfl
    omega

end Gridnet
