import Gridnet.PoolModel

/-! The bytes a transaction signature covers. `getConcatData` writes fields of fixed and of variable
length one after the other, with nothing between them: the same bytes can be read as the fields of
another transaction as soon as there is more than one way to place the borders. -/

namespace Gridnet

/-! ### The concatenator -/

structure CDataConcatenator where
  mInternalTemp : Bytes := []
  mOffset : ℕ := 0
  mSizeLimit : ℕ := 0

namespace CDataConcatenator

/-- Bytes written over a buffer from an offset on. -/
def memcpy (buffer : Bytes) (offset : ℕ) (bytes : Bytes) : Bytes :=
  buffer.take offset ++ bytes ++ buffer.drop (offset + bytes.length)

/-- The buffer is resized, the bytes are copied to the offset and the offset moves behind them. -/
def write (concat : CDataConcatenator) (bytes : Bytes) : CDataConcatenator :=
  { concat with
    mInternalTemp := memcpy (concat.mInternalTemp ++ List.replicate bytes.length 0) concat.mOffset bytes
    mOffset := concat.mOffset + bytes.length }

/-- `add` of a byte vector; past the size limit nothing is added. -/
def addVec (concat : CDataConcatenator) (vec : Bytes) : CDataConcatenator :=
  if vec.length = 0 then concat
  else if concat.mSizeLimit ≠ 0 ∧ concat.mSizeLimit < concat.mInternalTemp.length + vec.length then
    concat
  else concat.write vec

/-- `add` of a number of 64 bits. -/
def add (concat : CDataConcatenator) (val : UInt64) : CDataConcatenator :=
  if concat.mSizeLimit ≠ 0 ∧ concat.mSizeLimit < concat.mInternalTemp.length + 8 then concat
  else concat.write (fixedBytes 8 val.toNat)

def addBigInt (concat : CDataConcatenator) (val : BigInt) : CDataConcatenator :=
  concat.write (BigIntToBytes val.toNat)

/-- The start of the buffer is copied in place of the number, and the offset stays. -/
def addBigIntBugged (concat : CDataConcatenator) (val : BigInt) : CDataConcatenator :=
  let bytes := BigIntToBytes val.toNat
  let resized := concat.mInternalTemp ++ List.replicate bytes.length 0
  { concat with mInternalTemp := memcpy resized concat.mOffset (resized.take bytes.length) }

def getData (concat : CDataConcatenator) : Bytes := concat.mInternalTemp

end CDataConcatenator

/-! ### Transactions -/

/-- The fields of a transaction that take part in its signature. -/
structure CTransaction where
  mOriginalVersion : UInt64 := 0
  mVersion : UInt64 := 3
  mPubKey : Bytes := []
  mSignature : Bytes := []
  mIssuer : Bytes := []
  mNonce : UInt64 := 0
  mCode : Bytes := []
  mTimestamp : UInt64 := 0
  mErgPrice : BigInt := 1
  mErgLimit : BigInt := 0
  mExtData : Bytes := []
  deriving DecidableEq, Repr

namespace CTransaction

def targetVersion (t : CTransaction) : UInt64 :=
  if t.mOriginalVersion ≠ 0 then t.mOriginalVersion else t.mVersion

/-- The public key and the signature, where they are asked for. -/
def concatHeader (t : CTransaction) (includePubKey includeSig : Bool) : CDataConcatenator :=
  let concat : CDataConcatenator := {}
  let concat := if includePubKey then concat.addVec t.mPubKey else concat
  if includeSig then concat.addVec t.mSignature else concat

/-- The fields up to the timestamp, which all versions write alike. -/
def concatFields (t : CTransaction) (concat : CDataConcatenator) (version : UInt64) :
    CDataConcatenator :=
  ((((concat.add version).addVec t.mIssuer).add t.mNonce).addVec t.mCode).add t.mTimestamp

/-- `none` where the source returns false. -/
def getConcatData (t : CTransaction) (includePubKey includeSig : Bool) : Option Bytes :=
  if includePubKey ∧ t.mPubKey.length = 0 then none
  else if includeSig ∧ t.mSignature.length = 0 then none
  else
    let concat := t.concatHeader includePubKey includeSig
    if t.targetVersion = 1 then
      let fields := t.concatFields concat t.targetVersion
      let tempUInt : UInt64 := .ofNat t.mErgPrice.toNat
      some (((fields.add tempUInt).addBigIntBugged t.mErgLimit).addVec t.mExtData).getData
    else if t.targetVersion = 2 then
      let fields := t.concatFields concat t.mVersion
      some (((fields.addBigIntBugged t.mErgPrice).addBigIntBugged t.mErgLimit).addVec
        t.mExtData).getData
    else if t.targetVersion = 3 then
      let fields := t.concatFields concat t.mVersion
      some (((fields.addBigInt t.mErgPrice).addBigInt t.mErgLimit).addVec t.mExtData).getData
    else none

/-- The hash that is signed; the empty vector where there is nothing to sign. -/
def getDataToSign (t : CTransaction) (cf : CCryptoFactory) : Bytes :=
  match t.getConcatData false false with
  | none => []
  | some toSign => cf.getSHA2_256Vec (({} : CDataConcatenator).addVec toSign).getData

end CTransaction

/-! ### What version 3 signs -/

namespace CDataConcatenator

/-- A concatenator without a size limit that has written these bytes. -/
def holding (bytes : Bytes) : CDataConcatenator :=
  { mInternalTemp := bytes, mOffset := bytes.length }

theorem holding_write (bytes more : Bytes) :
    (holding bytes).write more = holding (bytes ++ more) := by
  unfold write memcpy holding
  simp

theorem holding_addVec (bytes vec : Bytes) :
    (holding bytes).addVec vec = holding (bytes ++ vec) := by
  unfold addVec
  split_ifs with hempty hlimit
  · rw [List.length_eq_zero_iff.mp hempty, List.append_nil]
  · exact absurd rfl hlimit.1
  · exact holding_write bytes vec

theorem holding_add (bytes : Bytes) (val : UInt64) :
    (holding bytes).add val = holding (bytes ++ fixedBytes 8 val.toNat) := by
  unfold add
  split_ifs with hlimit
  · exact absurd rfl hlimit.1
  · exact holding_write bytes _

theorem holding_addBigInt (bytes : Bytes) (val : BigInt) :
    (holding bytes).addBigInt val = holding (bytes ++ BigIntToBytes val.toNat) :=
  holding_write bytes _

end CDataConcatenator

namespace CTransaction

/-- A transaction written and signed in version 3. -/
structure IsVersion3 (t : CTransaction) : Prop where
  original_eq : t.mOriginalVersion = 0 ∨ t.mOriginalVersion = 3
  version_eq : t.mVersion = 3

/-- The fields a version-3 signature covers, in the order they are written. -/
def signedBytes (t : CTransaction) : Bytes :=
  t.mIssuer ++ (fixedBytes 8 t.mNonce.toNat ++ (t.mCode ++ (fixedBytes 8 t.mTimestamp.toNat ++
    (BigIntToBytes t.mErgPrice.toNat ++ (BigIntToBytes t.mErgLimit.toNat ++ t.mExtData)))))

theorem IsVersion3.getConcatData_eq {t : CTransaction} (h : t.IsVersion3) :
    t.getConcatData false false = some (fixedBytes 8 3 ++ t.signedBytes) := by
  have htarget : t.targetVersion = 3 := by
    unfold targetVersion
    split_ifs with hzero
    · exact h.original_eq.resolve_left hzero
    · exact h.version_eq
  have hheader : t.concatHeader false false = CDataConcatenator.holding [] := rfl
  have hversion : t.mVersion.toNat = 3 := congrArg UInt64.toNat h.version_eq
  unfold getConcatData
  rw [if_neg (by simp), if_neg (by simp)]
  simp only [htarget, hheader, concatFields, CDataConcatenator.holding_add,
    CDataConcatenator.holding_addVec, CDataConcatenator.holding_addBigInt, hversion,
    CDataConcatenator.getData, signedBytes]
  rw [if_neg (by decide), if_neg (by decide), if_pos trivial]
  simp only [CDataConcatenator.holding, List.nil_append, List.append_assoc]

/-- The fields the signature is meant to bind. -/
structure SameFields (t1 t2 : CTransaction) : Prop where
  issuer_eq : t1.mIssuer = t2.mIssuer
  nonce_eq : t1.mNonce = t2.mNonce
  code_eq : t1.mCode = t2.mCode
  timestamp_eq : t1.mTimestamp = t2.mTimestamp
  price_eq : t1.mErgPrice = t2.mErgPrice
  limit_eq : t1.mErgLimit = t2.mErgLimit
  extData_eq : t1.mExtData = t2.mExtData

/-- Two transactions whose fields of variable length have the same borders. -/
structure SameBorders (t1 t2 : CTransaction) : Prop where
  issuer : t1.mIssuer.length = t2.mIssuer.length
  code : t1.mCode.length = t2.mCode.length
  price : (BigIntToBytes t1.mErgPrice.toNat).length = (BigIntToBytes t2.mErgPrice.toNat).length
  limit : (BigIntToBytes t1.mErgLimit.toNat).length = (BigIntToBytes t2.mErgLimit.toNat).length

theorem fixedBytes_uint64 {m n : UInt64} (h : fixedBytes 8 m.toNat = fixedBytes 8 n.toNat) :
    m = n := by
  have hread : ∀ k : UInt64, BytesToBigInt (fixedBytes 8 k.toNat) = k.toNat :=
    fun k => BytesToBigInt_fixedBytes k.toNat_lt
  apply UInt64.toNat_inj.mp
  rw [← hread m, h, hread n]

theorem BigIntToBytes_bitVec {m n : BigInt} (h : BigIntToBytes m.toNat = BigIntToBytes n.toNat) :
    m = n :=
  BitVec.eq_of_toNat_eq (BigIntToBytes_injective h)

/-- The borders are all a signature leaves open. -/
theorem sameFields_of_sameBorders {t1 t2 : CTransaction} (hborders : SameBorders t1 t2)
    (h : t1.signedBytes = t2.signedBytes) : SameFields t1 t2 := by
  obtain ⟨hissuer, h⟩ := List.append_inj h hborders.issuer
  obtain ⟨hnonce, h⟩ := List.append_inj h (by rw [fixedBytes_length, fixedBytes_length])
  obtain ⟨hcode, h⟩ := List.append_inj h hborders.code
  obtain ⟨htimestamp, h⟩ := List.append_inj h (by rw [fixedBytes_length, fixedBytes_length])
  obtain ⟨hprice, h⟩ := List.append_inj h hborders.price
  obtain ⟨hlimit, hext⟩ := List.append_inj h hborders.limit
  exact ⟨hissuer, fixedBytes_uint64 hnonce, hcode, fixedBytes_uint64 htimestamp,
    BigIntToBytes_bitVec hprice, BigIntToBytes_bitVec hlimit, hext⟩

/-- A transaction none of whose fields of variable length could be shorter. -/
structure Minimal (t : CTransaction) : Prop where
  issuer_eq : t.mIssuer = []
  code_eq : t.mCode = []
  extData_eq : t.mExtData = []
  price_lt : t.mErgPrice.toNat < 256
  limit_lt : t.mErgLimit.toNat < 256

theorem signedBytes_length (t : CTransaction) :
    t.signedBytes.length = t.mIssuer.length + t.mCode.length + t.mExtData.length +
      (BigIntToBytes t.mErgPrice.toNat).length + (BigIntToBytes t.mErgLimit.toNat).length + 16 := by
  simp only [signedBytes, List.length_append, fixedBytes_length]
  omega

theorem eighteen_le_length (t : CTransaction) : 18 ≤ t.signedBytes.length := by
  have hprice := List.length_pos_iff.mpr (BigIntToBytes_ne_nil t.mErgPrice.toNat)
  have hlimit := List.length_pos_iff.mpr (BigIntToBytes_ne_nil t.mErgLimit.toNat)
  rw [signedBytes_length]
  omega

theorem minimal_iff_length {t : CTransaction} : t.Minimal ↔ t.signedBytes.length = 18 := by
  have hprice := List.length_pos_iff.mpr (BigIntToBytes_ne_nil t.mErgPrice.toNat)
  have hlimit := List.length_pos_iff.mpr (BigIntToBytes_ne_nil t.mErgLimit.toNat)
  constructor
  · rintro ⟨hissuer, hcode, hext, hpriceLt, hlimitLt⟩
    rw [signedBytes_length, hissuer, hcode, hext, BigIntToBytes_length_eq_one.mpr hpriceLt,
      BigIntToBytes_length_eq_one.mpr hlimitLt]
    rfl
  · intro hlength
    rw [signedBytes_length] at hlength
    refine ⟨List.length_eq_zero_iff.mp ?_, List.length_eq_zero_iff.mp ?_,
      List.length_eq_zero_iff.mp ?_, BigIntToBytes_length_eq_one.mp ?_,
      BigIntToBytes_length_eq_one.mp ?_⟩ <;> omega

/-- Two transactions as short as can be have their borders at the same places. -/
theorem Minimal.sameBorders {t1 t2 : CTransaction} (h1 : t1.Minimal) (h2 : t2.Minimal) :
    SameBorders t1 t2 where
  issuer := by rw [h1.issuer_eq, h2.issuer_eq]
  code := by rw [h1.code_eq, h2.code_eq]
  price := by
    rw [BigIntToBytes_length_eq_one.mpr h1.price_lt, BigIntToBytes_length_eq_one.mpr h2.price_lt]
  limit := by
    rw [BigIntToBytes_length_eq_one.mpr h1.limit_lt, BigIntToBytes_length_eq_one.mpr h2.limit_lt]

/-- Signed bytes read with an issuer of `n` bytes, no code, and one byte each for price and limit. -/
def readAs (bytes : Bytes) (n : ℕ) : CTransaction :=
  { mIssuer := bytes.take n
    mNonce := .ofNat (BytesToBigInt ((bytes.drop n).take 8))
    mTimestamp := .ofNat (BytesToBigInt ((bytes.drop (n + 8)).take 8))
    mErgPrice := .ofNat 256 (bytes[n + 16]?.getD 0).toNat
    mErgLimit := .ofNat 256 (bytes[n + 17]?.getD 0).toNat
    mExtData := bytes.drop (n + 18) }

theorem fixedBytes_ofNat {bytes : Bytes} (hlength : bytes.length = 8) :
    fixedBytes 8 (UInt64.ofNat (BytesToBigInt bytes)).toNat = bytes := by
  have hlt : BytesToBigInt bytes < 2 ^ 64 := (BytesToBigInt_lt bytes).trans_eq (by rw [hlength]; rfl)
  rw [UInt64.toNat_ofNat', Nat.mod_eq_of_lt hlt, ← hlength, fixedBytes_BytesToBigInt]

theorem BigIntToBytes_ofNat (b : UInt8) : BigIntToBytes (BitVec.ofNat 256 b.toNat).toNat = [b] := by
  have hlt : b.toNat < 2 ^ 256 := b.toNat_lt.trans (by decide)
  rw [BitVec.toNat_ofNat, Nat.mod_eq_of_lt hlt, BigIntToBytes_toNat]

theorem take_append_drop_add (l : Bytes) (i k : ℕ) :
    (l.drop i).take k ++ l.drop (i + k) = l.drop i := by
  rw [← List.drop_drop, List.take_append_drop]

/-- Any bytes that are long enough can be read with an issuer of `n` bytes. -/
theorem readAs_signedBytes {bytes : Bytes} {n : ℕ} (hlength : n + 18 ≤ bytes.length) :
    (readAs bytes n).signedBytes = bytes := by
  have hnonce : ((bytes.drop n).take 8).length = 8 := by
    rw [List.length_take, List.length_drop]
    omega
  have htimestamp : ((bytes.drop (n + 8)).take 8).length = 8 := by
    rw [List.length_take, List.length_drop]
    omega
  have hprice : bytes[n + 16]? = some bytes[n + 16] := List.getElem?_eq_getElem (by omega)
  have hlimit : bytes[n + 17]? = some bytes[n + 17] := List.getElem?_eq_getElem (by omega)
  simp only [signedBytes, readAs, fixedBytes_ofNat hnonce, fixedBytes_ofNat htimestamp,
    BigIntToBytes_ofNat, hprice, hlimit, Option.getD_some, List.nil_append, List.singleton_append]
  rw [show n + 18 = n + 17 + 1 from rfl, ← List.drop_eq_getElem_cons,
    show n + 17 = n + 16 + 1 from rfl, ← List.drop_eq_getElem_cons,
    show n + 16 = n + 8 + 8 from rfl, take_append_drop_add, take_append_drop_add,
    List.take_append_drop]

/-- The signature of a transaction binds its fields against every other transaction. -/
def Binds (t : CTransaction) : Prop :=
  ∀ other : CTransaction, other.IsVersion3 →
    other.getConcatData false false = t.getConcatData false false → SameFields other t

theorem signedBytes_eq {t1 t2 : CTransaction} (h1 : t1.IsVersion3) (h2 : t2.IsVersion3) :
    t1.getConcatData false false = t2.getConcatData false false ↔ t1.signedBytes = t2.signedBytes := by
  rw [h1.getConcatData_eq, h2.getConcatData_eq, Option.some_inj, List.append_right_inj]

theorem binds_of_minimal {t : CTransaction} (h : t.IsVersion3) (hminimal : t.Minimal) : t.Binds := by
  intro other hother hsame
  rw [signedBytes_eq hother h] at hsame
  have hlength : other.Minimal := by
    rw [minimal_iff_length, hsame]
    exact minimal_iff_length.mp hminimal
  exact sameFields_of_sameBorders (hlength.sameBorders hminimal) hsame

/-- The same bytes read with an issuer of another length. -/
theorem not_binds_of_not_minimal {t : CTransaction} (h : t.IsVersion3) (hminimal : ¬t.Minimal) :
    ¬t.Binds := by
  intro hbinds
  have hlong : 19 ≤ t.signedBytes.length := by
    have hle := t.eighteen_le_length
    have hne : t.signedBytes.length ≠ 18 := fun heq => hminimal (minimal_iff_length.mpr heq)
    omega
  have hreads : ∀ n, n ≤ 1 → t.mIssuer.length = n := by
    intro n hn
    have hsame : (readAs t.signedBytes n).signedBytes = t.signedBytes :=
      readAs_signedBytes (by omega)
    have hread : (readAs t.signedBytes n).IsVersion3 := ⟨Or.inl rfl, rfl⟩
    have hfields := hbinds _ hread ((signedBytes_eq hread h).mpr hsame)
    rw [← hfields.issuer_eq, readAs, List.length_take]
    omega
  have hzero := hreads 0 (by omega)
  have hone := hreads 1 (by omega)
  omega

/-- **What a version-3 signature binds.** It binds the fields of a transaction against all others
exactly if none of them could be shorter, and against those whose borders lie at the same places
always. -/
theorem binds_iff {t : CTransaction} (h : t.IsVersion3) :
    (t.Binds ↔ t.Minimal) ∧
    ∀ other : CTransaction, other.IsVersion3 → SameBorders other t →
      other.getConcatData false false = t.getConcatData false false → SameFields other t := by
  refine ⟨⟨fun hbinds => ?_, binds_of_minimal h⟩, fun other hother hborders hsame => ?_⟩
  · by_contra hminimal
    exact not_binds_of_not_minimal h hminimal hbinds
  · exact sameFields_of_sameBorders hborders ((signedBytes_eq hother h).mp hsame)

end CTransaction

/-- A limit of one with one byte of extra data, and the limit those two bytes make together. -/
def shortLimit : CTransaction := { mIssuer := [7], mCode := [9], mErgLimit := 1, mExtData := [5] }

def longLimit : CTransaction := { mIssuer := [7], mCode := [9], mErgLimit := 0x0501 }

theorem binds_iff_shortLimit :
    (shortLimit.Binds ↔ shortLimit.Minimal) ∧
    ∀ other : CTransaction, other.IsVersion3 → CTransaction.SameBorders other shortLimit →
      other.getConcatData false false = shortLimit.getConcatData false false →
      CTransaction.SameFields other shortLimit :=
  CTransaction.binds_iff ⟨Or.inl rfl, rfl⟩

/-- Both transactions sign the same bytes. -/
theorem binds_fails :
    shortLimit.IsVersion3 ∧ longLimit.IsVersion3 ∧
    shortLimit.getConcatData false false = longLimit.getConcatData false false ∧
    ¬CTransaction.SameFields shortLimit longLimit :=
  ⟨⟨Or.inl rfl, rfl⟩, ⟨Or.inl rfl, rfl⟩, by decide,
    fun hsame => absurd hsame.limit_eq (by decide)⟩

end Gridnet
