import Mathlib.Data.Nat.Digits.Lemmas

/-! Byte vectors, the 256-bit integers of the node and the ASN.1 objects both sides exchange. The
DER byte layer is taken as given: a packed object is the tree of the objects written into it. -/

namespace Gridnet

/-- `std::vector<uint8_t>`, and `std::string` where the code only copies bytes. -/
abbrev Bytes := List UInt8

/-- Whether a byte vector is in a list is decided the same way everywhere. -/
instance : LawfulBEq Bytes := inferInstance

/-- A byte vector of 32 bytes: a hash, a seed or `genRandomVector(32)`. -/
abbrev Bytes32 := { b : Bytes // b.length = 32 }

/-- `mp::uint256_t`: arithmetic wraps at `2 ^ 256`. -/
abbrev BigInt := BitVec 256

/-- The objects written by `DER_Encoder` and read by `BER_Decoder`. -/
inductive Asn1 where
  | integer (n : ℕ)
  | octets (b : Bytes)
  | sequence (objects : List Asn1)

/-- `BigIntToBytes`: the base-256 digits, least significant first and without leading zeros; zero
is one zero byte, as `export_bits` writes it. -/
def BigIntToBytes (n : ℕ) : Bytes :=
  if n = 0 then [0] else (Nat.digits 256 n).map UInt8.ofNat

/-- `BytesToBigInt`: the number whose base-256 digits these bytes are. -/
def BytesToBigInt (b : Bytes) : ℕ := Nat.ofDigits 256 (b.map UInt8.toNat)

theorem map_toNat_ofNat_digits (n : ℕ) :
    ((Nat.digits 256 n).map UInt8.ofNat).map UInt8.toNat = Nat.digits 256 n := by
  rw [List.map_map]
  refine (List.map_congr_left fun d hd => ?_).trans (List.map_id _)
  have hlt : d < 256 := Nat.digits_lt_base (by decide) hd
  simp [Nat.mod_eq_of_lt hlt]

@[simp] theorem BytesToBigInt_BigIntToBytes (n : ℕ) : BytesToBigInt (BigIntToBytes n) = n := by
  by_cases hn : n = 0
  · subst hn
    rfl
  · rw [BytesToBigInt, BigIntToBytes, if_neg hn, map_toNat_ofNat_digits, Nat.ofDigits_digits]

theorem BigIntToBytes_injective {m n : ℕ} (h : BigIntToBytes m = BigIntToBytes n) : m = n := by
  rw [← BytesToBigInt_BigIntToBytes m, h, BytesToBigInt_BigIntToBytes]

theorem BigIntToBytes_ne_nil (n : ℕ) : BigIntToBytes n ≠ [] := by
  unfold BigIntToBytes
  split_ifs with hn
  · exact List.cons_ne_nil 0 []
  · rw [Ne, List.map_eq_nil_iff, Nat.digits_eq_nil_iff_eq_zero]
    exact hn

/-- One byte is enough exactly below 256. -/
theorem BigIntToBytes_length_eq_one {n : ℕ} : (BigIntToBytes n).length = 1 ↔ n < 256 := by
  unfold BigIntToBytes
  split_ifs with hn
  · simp [hn]
  · rw [List.length_map, Nat.length_digits _ _ (by decide) hn]
    have hlog : Nat.log 256 n = 0 ↔ n < 256 := by
      rw [Nat.log_eq_zero_iff]
      omega
    omega

theorem BigIntToBytes_toNat (b : UInt8) : BigIntToBytes b.toNat = [b] := by
  unfold BigIntToBytes
  split_ifs with hb
  · rw [show b = 0 from UInt8.toNat_inj.mp hb]
  · rw [Nat.digits_of_lt 256 _ hb b.toNat_lt, List.map_singleton, UInt8.ofNat_toNat]

/-! ### Numbers of a fixed width -/

/-- The `w` low bytes of a number, least significant first, as they lie in memory. -/
def fixedBytes : (w n : ℕ) → Bytes
  | 0, _ => []
  | w + 1, n => .ofNat n :: fixedBytes w (n / 256)

@[simp] theorem fixedBytes_length (w n : ℕ) : (fixedBytes w n).length = w := by
  induction w generalizing n with
  | zero => rfl
  | succ w ih => rw [fixedBytes, List.length_cons, ih]

theorem BytesToBigInt_cons (b : UInt8) (l : Bytes) :
    BytesToBigInt (b :: l) = b.toNat + 256 * BytesToBigInt l := by
  rw [BytesToBigInt, List.map_cons, Nat.ofDigits_cons]
  rfl

theorem BytesToBigInt_fixedBytes {w n : ℕ} (hn : n < 256 ^ w) :
    BytesToBigInt (fixedBytes w n) = n := by
  induction w generalizing n with
  | zero =>
      rw [Nat.pow_zero, Nat.lt_one_iff] at hn
      rw [hn]
      rfl
  | succ w ih =>
      have hrest : n / 256 < 256 ^ w := by
        rw [Nat.div_lt_iff_lt_mul (by decide), ← Nat.pow_succ]
        exact hn
      rw [fixedBytes, BytesToBigInt_cons, ih hrest, UInt8.toNat_ofNat']
      exact Nat.mod_add_div n 256

theorem fixedBytes_BytesToBigInt (l : Bytes) : fixedBytes l.length (BytesToBigInt l) = l := by
  induction l with
  | nil => rfl
  | cons b l ih =>
      have hlow : (b.toNat + 256 * BytesToBigInt l) / 256 = BytesToBigInt l := by
        have hb := b.toNat_lt
        omega
      have hbyte : UInt8.ofNat (b.toNat + 256 * BytesToBigInt l) = b := by
        apply UInt8.toNat_inj.mp
        rw [UInt8.toNat_ofNat']
        have hb := b.toNat_lt
        omega
      rw [List.length_cons, BytesToBigInt_cons, fixedBytes, hlow, ih, hbyte]

theorem BytesToBigInt_lt (l : Bytes) : BytesToBigInt l < 256 ^ l.length := by
  induction l with
  | nil => exact Nat.one_pos
  | cons b l ih =>
      have hb := b.toNat_lt
      rw [BytesToBigInt_cons, List.length_cons, Nat.pow_succ]
      omega

end Gridnet
