import Gridnet.Bytes

/-! The text codecs of the standalone compiler: Base58 and Base64, and their variants with a checksum
of four bytes. The checksum comes from SHA-256, which is taken as any function to 32 bytes. -/

namespace Gridnet

/-- A string literal of the source as bytes. -/
def ascii (s : String) : Bytes := s.toList.map fun c => UInt8.ofNat c.toNat

def BASE58_CHARS : Bytes := ascii "123456789ABCDEFGHJKLMNPQRSTUVWXYZabcdefghijkmnopqrstuvwxyz"

def BASE64_CHARS : Bytes :=
  ascii "ABCDEFGHIJKLMNOPQRSTUVWXYZabcdefghijklmnopqrstuvwxyz0123456789+/"

/-- The inner loop of both Base58 directions: `carry` goes through a buffer of `size` digits, of
which `digits` are in use, least significant first. -/
def carryInto (factor base : ℕ) : ℕ → List ℕ → ℕ → List ℕ
  | 0, _, _ => []
  | size + 1, d :: digits, carry =>
      (carry + factor * d) % base :: carryInto factor base size digits ((carry + factor * d) / base)
  | size + 1, [], carry =>
      if carry = 0 then [] else carry % base :: carryInto factor base size [] (carry / base)

def base58Encode (data : Bytes) : Bytes :=
  let zeroes := (data.takeWhile (· = 0)).length
  let size := data.length * 138 / 100 + 1
  let b58 := (data.drop zeroes).foldl
    (fun b58 byte => carryInto 256 58 size b58 byte.toNat) []
  List.replicate zeroes 49 ++ b58.reverse.map fun digit => BASE58_CHARS.getD digit 0

/-- `strchr` finds the terminating zero as well. -/
def base58Digit (c : UInt8) : Option ℕ := (BASE58_CHARS ++ [0]).findIdx? (· = c)

def base58Decode (encoded : Bytes) : Option Bytes :=
  if encoded = [] then none
  else
    let zeroes := (encoded.takeWhile (· = 49)).length
    let size := encoded.length * 733 / 1000 + 1
    ((encoded.drop zeroes).foldlM
      (fun b256 c => (base58Digit c).map fun digit => carryInto 58 256 size b256 digit) []).map
      fun b256 => List.replicate zeroes 0 ++ b256.reverse.map UInt8.ofNat

/-- The characters that come out of the bits collected so far; no more than two after one byte. -/
def drain64 (val : UInt32) : ℕ → Int → Bytes × Int
  | 0, valb => ([], valb)
  | fuel + 1, valb =>
      if 0 ≤ valb then
        let (chars, valb') := drain64 val fuel (valb - 6)
        (BASE64_CHARS.getD ((val >>> valb.toNat.toUInt32) &&& 0x3F).toNat 0 :: chars, valb')
      else ([], valb)

/-- The loop of `base64Encode` and the last character after it. -/
def encode64 : Bytes → UInt32 → Int → Bytes
  | [], val, valb =>
      if -6 < valb then
        [BASE64_CHARS.getD (((val <<< 8) >>> (valb + 8).toNat.toUInt32) &&& 0x3F).toNat 0]
      else []
  | c :: data, val, valb =>
      let val := (val <<< 8) + c.toUInt32
      let (chars, valb) := drain64 val 2 (valb + 8)
      chars ++ encode64 data val valb

def base64Encode (data : Bytes) : Bytes :=
  let result := encode64 data 0 (-6)
  result ++ List.replicate ((4 - result.length % 4) % 4) 61

/-- The loop of `base64Decode`; characters outside the alphabet are skipped. -/
def decode64 : Bytes → UInt32 → Int → Bytes
  | [], _, _ => []
  | c :: encoded, val, valb =>
      if c = 61 then []
      else
        match BASE64_CHARS.findIdx? (· = c) with
        | none => decode64 encoded val valb
        | some digit =>
            let val := (val <<< 6) + digit.toUInt32
            let valb := valb + 6
            if 0 ≤ valb then
              UInt8.ofNat ((val >>> valb.toNat.toUInt32) &&& 0xFF).toNat ::
                decode64 encoded val (valb - 8)
            else decode64 encoded val valb

def base64Decode (encoded : Bytes) : Bytes := decode64 encoded 0 (-8)

variable (sha256 : Bytes → Bytes32)

/-- What is left of the decoded bytes when their last four are the checksum of the others. -/
def dropChecksum (checksum : Bytes → Bytes32) (decoded : Bytes) : Option Bytes :=
  if decoded.length < 5 then none
  else
    let output := decoded.take (decoded.length - 4)
    if decoded.drop (decoded.length - 4) = (checksum output).1.take 4 then some output else none

/-- A single hash is the checksum. -/
def base58CheckEncode (data : Bytes) : Bytes := base58Encode (data ++ (sha256 data).1.take 4)

def base58CheckDecode (encoded : Bytes) : Option Bytes :=
  (base58Decode encoded).bind (dropChecksum sha256)

/-- A double hash is the checksum. -/
def base64CheckEncode (data : Bytes) : Bytes :=
  base64Encode (data ++ (sha256 (sha256 data).1).1.take 4)

def base64CheckDecode (encoded : Bytes) : Option Bytes :=
  dropChecksum (fun data => sha256 (sha256 data).1) (base64Decode encoded)

theorem carryInto_length_le (factor base size : ℕ) (digits : List ℕ) (carry : ℕ) :
    (carryInto factor base size digits carry).length ≤ size := by
  induction size generalizing digits carry with
  | zero => simp [carryInto]
  | succ size ih =>
      cases digits with
      | nil =>
          rw [carryInto]
          split_ifs
          · simp
          · exact Nat.succ_le_succ (ih [] _)
      | cons d digits => exact Nat.succ_le_succ (ih digits _)

/-- Decoding to 58 at most doubles the length. -/
theorem base58Decode_length_le {encoded decoded : Bytes}
    (hdecode : base58Decode encoded = some decoded) : decoded.length ≤ 2 * encoded.length + 1 := by
  have hzeroes : (encoded.takeWhile (· = 49)).length ≤ encoded.length :=
    (List.takeWhile_prefix _).length_le
  have hfold : ∀ (text : Bytes) (b256 : List ℕ), b256.length ≤ encoded.length * 733 / 1000 + 1 →
      ∀ result, text.foldlM (fun b256 c => (base58Digit c).map fun digit =>
        carryInto 58 256 (encoded.length * 733 / 1000 + 1) b256 digit) b256 = some result →
      result.length ≤ encoded.length * 733 / 1000 + 1 := by
    intro text
    induction text with
    | nil =>
        rintro b256 hb256 result hresult
        cases hresult
        exact hb256
    | cons c text ih =>
        rintro b256 - result hresult
        rw [List.foldlM_cons] at hresult
        obtain ⟨next, hnext, hrest⟩ := Option.bind_eq_some_iff.mp hresult
        obtain ⟨digit, -, rfl⟩ := Option.map_eq_some_iff.mp hnext
        exact ih _ (carryInto_length_le _ _ _ _ _) result hrest
  unfold base58Decode at hdecode
  split_ifs at hdecode
  obtain ⟨b256, hb256, rfl⟩ := Option.map_eq_some_iff.mp hdecode
  have hlength := hfold _ [] (Nat.zero_le _) b256 hb256
  simp only [List.length_append, List.length_replicate, List.length_map, List.length_reverse]
  omega

theorem decode64_length_le (encoded : Bytes) (val : UInt32) (valb : Int) :
    (decode64 encoded val valb).length ≤ encoded.length := by
  induction encoded generalizing val valb with
  | nil => simp [decode64]
  | cons c encoded ih =>
      rw [decode64]
      split_ifs
      · simp
      · split
        · exact (ih _ _).trans (Nat.le_succ _)
        · dsimp only
          split_ifs
          · exact Nat.succ_le_succ (ih _ _)
          · exact (ih _ _).trans (Nat.le_succ _)

/-- Without its checksum, decoded text is shorter by four bytes and not empty. -/
theorem dropChecksum_length {checksum : Bytes → Bytes32} {decoded output : Bytes}
    (hdrop : dropChecksum checksum decoded = some output) :
    output.length + 4 = decoded.length ∧ output ≠ [] := by
  unfold dropChecksum at hdrop
  dsimp only at hdrop
  split_ifs at hdrop with hshort hsum
  obtain rfl := Option.some.inj hdrop
  rw [← List.length_pos_iff, List.length_take]
  omega

theorem getD_mem_cons (l : Bytes) (i : ℕ) (c : UInt8) : l.getD i c ∈ c :: l := by
  rw [List.getD_eq_getElem?_getD]
  cases hi : l[i]? with
  | none => exact List.mem_cons_self
  | some d => exact List.mem_cons_of_mem _ (List.mem_of_getElem? hi)

/-- Base58 text is made of the alphabet. -/
theorem base58Encode_chars (data : Bytes) : ∀ c ∈ base58Encode data, c ∈ 0 :: BASE58_CHARS := by
  intro c hc
  obtain hc | hc := List.mem_append.mp hc
  · rw [List.eq_of_mem_replicate hc]
    decide
  · obtain ⟨digit, -, rfl⟩ := List.mem_map.mp hc
    exact getD_mem_cons BASE58_CHARS digit 0

theorem carryInto_ne_nil {factor base size : ℕ} {digits : List ℕ} {carry : ℕ}
    (hsome : digits ≠ [] ∨ carry ≠ 0) : carryInto factor base (size + 1) digits carry ≠ [] := by
  cases digits with
  | nil => simpa [carryInto] using hsome
  | cons d digits => simp [carryInto]

/-- Bytes have a Base58 text that is not empty. -/
theorem base58Encode_ne_nil {data : Bytes} (hdata : data ≠ []) : base58Encode data ≠ [] := by
  obtain ⟨c, rest, rfl⟩ := List.exists_cons_of_ne_nil hdata
  by_cases hc : c = 0
  · simp [base58Encode, hc, List.replicate_succ]
  · have hfold : ∀ (bytes : Bytes) (b58 : List ℕ), b58 ≠ [] →
        bytes.foldl (fun b58 byte =>
          carryInto 256 58 ((c :: rest).length * 138 / 100 + 1) b58 byte.toNat) b58 ≠ [] := by
      intro bytes
      induction bytes with
      | nil => exact fun _ h => h
      | cons byte bytes ih => exact fun b58 h => ih _ (carryInto_ne_nil (.inl h))
    have hfirst : c.toNat ≠ 0 := fun h => hc (UInt8.toNat.inj h)
    have hzeroes : ((c :: rest).takeWhile (· = 0)).length = 0 := by simp [hc]
    unfold base58Encode
    dsimp only
    rw [hzeroes, List.drop_zero, List.foldl_cons]
    have hdigits := hfold rest (carryInto 256 58 ((c :: rest).length * 138 / 100 + 1) [] c.toNat)
      (carryInto_ne_nil (.inr hfirst))
    simpa using hdigits

theorem drain64_chars (val : UInt32) (fuel : ℕ) (valb : Int) :
    ∀ c ∈ (drain64 val fuel valb).1, c ∈ 0 :: BASE64_CHARS := by
  induction fuel generalizing valb with
  | zero => simp [drain64]
  | succ fuel ih =>
      intro c hc
      rw [drain64] at hc
      split_ifs at hc
      · obtain rfl | hc := List.mem_cons.mp hc
        · exact getD_mem_cons _ _ _
        · exact ih _ c hc
      · exact absurd hc List.not_mem_nil

theorem encode64_chars (data : Bytes) (val : UInt32) (valb : Int) :
    ∀ c ∈ encode64 data val valb, c ∈ 0 :: BASE64_CHARS := by
  induction data generalizing val valb with
  | nil =>
      intro c hc
      rw [encode64] at hc
      split_ifs at hc
      · rw [List.mem_singleton.mp hc]
        exact getD_mem_cons _ _ _
      · exact absurd hc List.not_mem_nil
  | cons byte data ih =>
      intro c hc
      rw [encode64] at hc
      dsimp only at hc
      cases List.mem_append.mp hc with
      | inl hdrained => exact drain64_chars _ _ _ c hdrained
      | inr hrest => exact ih _ _ c hrest

/-- Base64 text is made of the alphabet and the padding. -/
theorem base64Encode_chars (data : Bytes) : ∀ c ∈ base64Encode data, c ∈ 61 :: 0 :: BASE64_CHARS := by
  intro c hc
  obtain hc | hc := List.mem_append.mp hc
  · exact List.mem_cons_of_mem _ (encode64_chars data 0 (-6) c hc)
  · rw [List.eq_of_mem_replicate hc]
    exact List.mem_cons_self

/-- The first character of Base64 text comes from the upper six bits of the first byte. -/
theorem base64Encode_head (c : UInt8) (data : Bytes) :
    (base64Encode (c :: data)).head? =
      some (BASE64_CHARS.getD (((((0 : UInt32) <<< 8) + c.toUInt32) >>> 2) &&& 0x3F).toNat 0) := by
  rfl

end Gridnet
