import Mathlib.Data.Nat.Digits.Lemmas
import Mathlib.Data.Nat.Size
import Mathlib.Logic.Function.Basic

/-! Tagged objects of ASN.1. The reader follows the basic rules (BER): lengths in long or indefinite
form, integers with leading zeros, end-of-contents markers between objects. The writer follows the
distinguished ones (DER), where every value has one form. What the writer writes the reader reads back,
for single objects and for records that are written as a row of them. -/

namespace Ber

abbrev ASN1_Tag := ℕ

namespace ASN1_Tag

abbrev UNIVERSAL : ASN1_Tag := 0x00
abbrev CONSTRUCTED : ASN1_Tag := 0x20
abbrev PRIVATE : ASN1_Tag := 0xA0
abbrev EOC : ASN1_Tag := 0x00
abbrev INTEGER : ASN1_Tag := 0x02
abbrev BIT_STRING : ASN1_Tag := 0x03
abbrev OCTET_STRING : ASN1_Tag := 0x04
abbrev NULL_TAG : ASN1_Tag := 0x05
abbrev SEQUENCE : ASN1_Tag := 0x10
abbrev NO_OBJECT : ASN1_Tag := 0xFF00

end ASN1_Tag

open ASN1_Tag

structure BER_Object where
  type_tag : ASN1_Tag := NO_OBJECT
  class_tag : ASN1_Tag := NO_OBJECT
  value : List UInt8 := []
  deriving DecidableEq, Repr

/-- `assert_is_a` throws unless this holds. -/
def BER_Object.isA (obj : BER_Object) (type_tag class_tag : ASN1_Tag) : Bool :=
  obj.type_tag == type_tag && obj.class_tag == class_tag

/-! ### Reading

The readers return `none` where the code throws, and else what they leave of the source. -/

/-- The digits of a tag in long form, seven bits each. -/
def longTag : (tag_buf : ℕ) → List UInt8 → Option (ASN1_Tag × List UInt8)
  | _, [] => none
  | tag_buf, b :: ber =>
      if tag_buf &&& 0xFF000000 ≠ 0 then none
      else
        let tag_buf := tag_buf <<< 7 ||| (b &&& 0x7F).toNat
        if b &&& 0x80 = 0 then some (tag_buf, ber) else longTag tag_buf ber

/-- The type and the class of the next object; at the end of the source both are `NO_OBJECT`. -/
def decodeTag : List UInt8 → Option (ASN1_Tag × ASN1_Tag × List UInt8)
  | [] => some (NO_OBJECT, NO_OBJECT, [])
  | b :: ber =>
      if b &&& 0x1F ≠ 0x1F then some ((b &&& 0x1F).toNat, (b &&& 0xE0).toNat, ber)
      else (longTag 0 ber).map fun (type_tag, ber) => (type_tag, (b &&& 0xE0).toNat, ber)

/-- The octets of a length in long form, of which there are at most four. -/
def lengthOctets : (count length : ℕ) → List UInt8 → Option ℕ
  | 0, length, _ => some length
  | _ + 1, _, [] => none
  | count + 1, length, b :: ber => lengthOctets count (length * 256 + b.toNat) ber

/-- One length field: the length and the octets the field takes. `findEoc` is what answers the
indefinite form. -/
def lengthField (findEoc : List UInt8 → Option ℕ) : List UInt8 → Option (ℕ × ℕ)
  | [] => none
  | b :: ber =>
      if b &&& 0x80 = 0 then some (b.toNat, 1)
      else
        let field_size := 1 + (b &&& 0x7F).toNat
        if field_size > 5 then none
        else if field_size = 1 then (findEoc ber).map (·, field_size)
        else (lengthOctets (field_size - 1) 0 ber).map (·, field_size)

/-- The loop of `find_eoc`: the octets up to the end-of-contents marker, or to the end of the source
where there is none. Every turn reads a tag, so that the source bounds the turns. -/
def eocLoop (decodeLength : List UInt8 → Option (ℕ × ℕ)) :
    (turns length : ℕ) → List UInt8 → Option ℕ
  | 0, length, _ => some length
  | turns + 1, length, source => do
      let (type_tag, class_tag, item) ← decodeTag source
      if type_tag = NO_OBJECT then return length
      let (item_size, length_size) ← decodeLength item
      let length := length + item_size + (source.length - item.length) + length_size
      if type_tag = EOC ∧ class_tag = UNIVERSAL then return length
      eocLoop decodeLength turns length ((item.drop length_size).drop item_size)

/-- Where the contents of an object are read, `DataSource_BERObject::peek` copies from their front and not from where
the reading is, so that the answer can be another one. Nothing over these readers depends on it: no length that is
written has the indefinite form, and their lemmas hold for any answer (`lengthField_encodeLength`). -/
def findEoc (decodeLength : List UInt8 → Option (ℕ × ℕ)) (ber : List UInt8) : Option ℕ :=
  eocLoop decodeLength (ber.length + 1) 0 ber

/-- `decode_length`; `allow_indef` bounds how deep indefinite lengths may be nested. -/
def decodeLength : (allow_indef : ℕ) → List UInt8 → Option (ℕ × ℕ)
  | 0 => lengthField fun _ => none
  | allow_indef + 1 => lengthField (findEoc (decodeLength allow_indef))

def ALLOWED_EOC_NESTINGS : ℕ := 16

/-- The loop of `get_next_object`: end-of-contents markers are skipped. At the end of the source the
object has no tag, but the contents of the last marker. -/
def nextObjectLoop : (turns : ℕ) → (next : BER_Object) → List UInt8 →
    Option (BER_Object × List UInt8)
  | 0, next, ber => some (next, ber)
  | turns + 1, next, ber => do
      let (type_tag, class_tag, field) ← decodeTag ber
      let next := { next with type_tag, class_tag }
      if type_tag = NO_OBJECT then return (next, field)
      let (length, field_size) ← decodeLength ALLOWED_EOC_NESTINGS field
      let contents := field.drop field_size
      let next := { next with value := contents.take length }
      if contents.length < length then none
      else if type_tag ||| class_tag = EOC then nextObjectLoop turns next (contents.drop length)
      else return (next, contents.drop length)

def getNextObject (ber : List UInt8) : Option (BER_Object × List UInt8) :=
  nextObjectLoop (ber.length + 1) {} ber

/-- The number with these base-256 digits, most significant first. -/
def bigEndian (contents : List UInt8) : ℕ := Nat.ofDigits 256 (contents.reverse.map UInt8.toNat)

/-- The contents of an `INTEGER` read into a `size_t`: neither negative nor of more than 32 bits. -/
def smallInteger : List UInt8 → Option ℕ
  | [] => some 0
  | b :: contents =>
      if b &&& 0x80 ≠ 0 then none
      else if bigEndian (b :: contents) < 2 ^ 32 then some (bigEndian (b :: contents)) else none

/-- `decode(size_t &)`. -/
def decodeSmall (ber : List UInt8) : Option (ℕ × List UInt8) := do
  let (obj, ber) ← getNextObject ber
  if obj.isA INTEGER UNIVERSAL then return (← smallInteger obj.value, ber) else none

/-- The octets of a bit string; the count of unused bits in front of them is checked and dropped. -/
def bitContents : List UInt8 → Option (List UInt8)
  | [] => none
  | unused :: contents => if 8 ≤ unused then none else some contents

/-- `decode` of the contents of a `BIT_STRING`. -/
def decodeBits (ber : List UInt8) : Option (List UInt8 × List UInt8) := do
  let (obj, ber) ← getNextObject ber
  if obj.isA BIT_STRING UNIVERSAL then return (← bitContents obj.value, ber) else none

/-- `start_cons`: the contents of the next object, which has to be a constructed one of this type. -/
def startCons (type_tag : ASN1_Tag) (ber : List UInt8) : Option (List UInt8) := do
  let (obj, _) ← getNextObject ber
  if obj.isA type_tag (UNIVERSAL ||| CONSTRUCTED) then some obj.value else none

/-! ### Writing -/

/-- The base-`b` digits of a number, most significant first. -/
def bigEndianDigits (b n : ℕ) : List UInt8 := (Nat.digits b n).reverse.map UInt8.ofNat

/-- The octets of a tag; those of a long one carry seven bits each, all but the last marked. -/
def encodeTag (type_tag class_tag : ASN1_Tag) : List UInt8 :=
  if type_tag ≤ 30 then [.ofNat (type_tag ||| class_tag)]
  else
    let digits := bigEndianDigits 128 type_tag
    .ofNat (class_tag ||| 0x1F) :: (digits.dropLast.map (0x80 ||| ·) ++ digits.drop (digits.length - 1))

def encodeLength (length : ℕ) : List UInt8 :=
  if length ≤ 127 then [.ofNat length]
  else
    let bytes := bigEndianDigits 256 length
    .ofNat (0x80 ||| bytes.length) :: bytes

def addObject (type_tag class_tag : ASN1_Tag) (rep : List UInt8) : List UInt8 :=
  encodeTag type_tag class_tag ++ encodeLength rep.length ++ rep

/-- What lies between `start_cons` and `end_cons`. -/
def cons (type_tag class_tag : ASN1_Tag) (contents : List UInt8) : List UInt8 :=
  addObject type_tag (class_tag ||| CONSTRUCTED) contents

def encodeNull : List UInt8 := addObject NULL_TAG UNIVERSAL []

/-- The contents of an `INTEGER`: the digits, behind a zero octet where the first one is `0x80` or
more. -/
def integerContents (n : ℕ) : List UInt8 :=
  if n = 0 then [0]
  else if n.size % 8 = 0 then 0 :: bigEndianDigits 256 n
  else bigEndianDigits 256 n

/-- `encode(size_t)`. -/
def encodeSmall (n : ℕ) : List UInt8 := addObject INTEGER UNIVERSAL (integerContents n)

/-- `encode` of octets as a `BIT_STRING`, without unused bits. -/
def encodeBits (contents : List UInt8) : List UInt8 := addObject BIT_STRING UNIVERSAL (0 :: contents)

/-! ### Turns of the loops -/

theorem longTag_length {tag_buf : ℕ} {ber rest : List UInt8} {type_tag : ASN1_Tag}
    (htag : longTag tag_buf ber = some (type_tag, rest)) : rest.length < ber.length := by
  induction ber generalizing tag_buf with
  | nil => cases htag
  | cons b ber ih =>
      simp only [longTag] at htag
      split_ifs at htag with hover hlast
      · cases htag
        exact Nat.lt_succ_self _
      · exact (ih htag).trans (Nat.lt_succ_self _)

/-- A tag that is read takes octets from the source. -/
theorem decodeTag_length {ber rest : List UInt8} {type_tag class_tag : ASN1_Tag}
    (htag : decodeTag ber = some (type_tag, class_tag, rest)) (hset : type_tag ≠ NO_OBJECT) :
    rest.length < ber.length := by
  cases ber with
  | nil =>
      cases htag
      exact absurd rfl hset
  | cons b ber =>
      simp only [decodeTag] at htag
      split_ifs at htag with hshort
      · cases htag
        exact Nat.lt_succ_self _
      · obtain ⟨⟨long, left⟩, hlong, heq⟩ := Option.map_eq_some_iff.mp htag
        cases heq
        exact (longTag_length hlong).trans (Nat.lt_succ_self _)

/-- More turns than octets change nothing: the loop of `find_eoc` ends by itself. -/
theorem eocLoop_turns (decodeLength : List UInt8 → Option (ℕ × ℕ)) {turns turns' : ℕ}
    {source : List UInt8} (hturns : source.length < turns) (hturns' : source.length < turns')
    (length : ℕ) :
    eocLoop decodeLength turns length source = eocLoop decodeLength turns' length source := by
  induction turns generalizing turns' source length with
  | zero => exact absurd hturns (Nat.not_lt_zero _)
  | succ turns ih =>
      cases turns' with
      | zero => exact absurd hturns' (Nat.not_lt_zero _)
      | succ turns' =>
          simp only [eocLoop]
          refine Option.bind_congr fun ⟨type_tag, class_tag, item⟩ htag => ?_
          by_cases hset : type_tag = NO_OBJECT
          · simp only [hset, if_true]
          have hlt := decodeTag_length htag hset
          simp only [hset, if_false]
          refine congrArg _ (funext fun ⟨item_size, length_size⟩ => ?_)
          have hleft : ((item.drop length_size).drop item_size).length ≤ item.length := by
            simp only [List.length_drop, Nat.sub_sub, Nat.sub_le]
          have hrest := ih (show _ < turns by omega) (hleft.trans_lt (show _ < turns' by omega))
          simp only [hrest]

/-- The loop of `get_next_object` ends by itself, too. -/
theorem nextObjectLoop_turns {turns turns' : ℕ} {ber : List UInt8} (hturns : ber.length < turns)
    (hturns' : ber.length < turns') (next : BER_Object) :
    nextObjectLoop turns next ber = nextObjectLoop turns' next ber := by
  induction turns generalizing turns' ber next with
  | zero => exact absurd hturns (Nat.not_lt_zero _)
  | succ turns ih =>
      cases turns' with
      | zero => exact absurd hturns' (Nat.not_lt_zero _)
      | succ turns' =>
          simp only [nextObjectLoop]
          refine Option.bind_congr fun ⟨type_tag, class_tag, field⟩ htag => ?_
          by_cases hset : type_tag = NO_OBJECT
          · simp only [hset, if_true]
          have hlt := decodeTag_length htag hset
          simp only [hset, if_false]
          refine congrArg _ (funext fun ⟨length, field_size⟩ => ?_)
          have hleft : ((field.drop field_size).drop length).length ≤ field.length := by
            simp only [List.length_drop, Nat.sub_sub, Nat.sub_le]
          have hrest := ih (show _ < turns by omega) (hleft.trans_lt (show _ < turns' by omega))
          simp only [hrest]

theorem nextObjectLoop_length {turns bound : ℕ} {next obj : BER_Object} {ber rest : List UInt8}
    (hnext : next.value.length ≤ bound) (hber : ber.length ≤ bound)
    (hread : nextObjectLoop turns next ber = some (obj, rest)) :
    obj.value.length ≤ bound ∧ rest.length ≤ bound := by
  induction turns generalizing next ber with
  | zero =>
      cases hread
      exact ⟨hnext, hber⟩
  | succ turns ih =>
      obtain ⟨⟨type_tag, class_tag, field⟩, htag, hread⟩ := Option.bind_eq_some_iff.mp hread
      dsimp only at hread
      by_cases hset : type_tag = NO_OBJECT
      · rw [if_pos hset] at hread
        cases hread
        refine ⟨hnext, le_trans ?_ hber⟩
        cases ber with
        | nil =>
            cases htag
            exact le_rfl
        | cons b ber =>
            simp only [decodeTag] at htag
            split_ifs at htag with hshort
            · cases htag
              exact Nat.le_succ _
            · obtain ⟨⟨long, left⟩, hlong, heq⟩ := Option.map_eq_some_iff.mp htag
              cases heq
              exact (longTag_length hlong).le.trans (Nat.le_succ _)
      · rw [if_neg hset] at hread
        have hfield := (decodeTag_length htag hset).le.trans hber
        obtain ⟨⟨length, field_size⟩, _, hread⟩ := Option.bind_eq_some_iff.mp hread
        dsimp only at hread
        have hvalue : ((field.drop field_size).take length).length ≤ bound := by
          simp only [List.length_take, List.length_drop]
          omega
        have hleft : ((field.drop field_size).drop length).length ≤ bound := by
          simp only [List.length_drop]
          omega
        split_ifs at hread with hshort heoc
        · exact ih hvalue hleft hread
        · cases hread
          exact ⟨hvalue, hleft⟩

theorem getNextObject_length {ber rest : List UInt8} {obj : BER_Object}
    (hread : getNextObject ber = some (obj, rest)) :
    obj.value.length ≤ ber.length ∧ rest.length ≤ ber.length :=
  nextObjectLoop_length (Nat.zero_le _) le_rfl hread

theorem decodeSmall_length {ber rest : List UInt8} {n : ℕ} (hread : decodeSmall ber = some (n, rest)) :
    rest.length ≤ ber.length := by
  obtain ⟨⟨obj, left⟩, hnext, hread⟩ := Option.bind_eq_some_iff.mp hread
  dsimp only at hread
  split_ifs at hread
  obtain ⟨value, _, hread⟩ := Option.bind_eq_some_iff.mp hread
  cases hread
  exact (getNextObject_length hnext).2

/-! ### Digits -/

@[simp] theorem bigEndian_nil : bigEndian [] = 0 := rfl

theorem bigEndian_cons (b : UInt8) (l : List UInt8) :
    bigEndian (b :: l) = b.toNat * 256 ^ l.length + bigEndian l := by
  simp [bigEndian, Nat.ofDigits_append, Nat.add_comm, Nat.mul_comm]

theorem bigEndian_lt (l : List UInt8) : bigEndian l < 256 ^ l.length := by
  have hlt := Nat.ofDigits_lt_base_pow_length (b := 256) (l := l.reverse.map UInt8.toNat) (by decide)
    (fun d hd => by
      obtain ⟨b, _, rfl⟩ := List.mem_map.mp hd
      exact b.toNat_lt)
  simpa [bigEndian] using hlt

theorem bigEndian_bigEndianDigits (n : ℕ) : bigEndian (bigEndianDigits 256 n) = n := by
  have hdigits : ((Nat.digits 256 n).map UInt8.ofNat).map UInt8.toNat = Nat.digits 256 n := by
    rw [List.map_map]
    refine (List.map_congr_left fun d hd => ?_).trans (List.map_id _)
    have hlt : d < 256 := Nat.digits_lt_base (by decide) hd
    simp [Nat.mod_eq_of_lt hlt]
  simp only [bigEndian, bigEndianDigits, List.map_reverse, List.reverse_reverse, hdigits,
    Nat.ofDigits_digits]

/-- A number has the digits it is read from when the first of them is not zero. -/
theorem bigEndianDigits_bigEndian {b : UInt8} (hb : b ≠ 0) (l : List UInt8) :
    bigEndianDigits 256 (bigEndian (b :: l)) = b :: l := by
  have hdigits : Nat.digits 256 (bigEndian (b :: l)) = (b :: l).reverse.map UInt8.toNat := by
    refine Nat.digits_ofDigits 256 (by decide) _ (fun d hd => ?_) fun hne => ?_
    · obtain ⟨c, _, rfl⟩ := List.mem_map.mp hd
      exact c.toNat_lt
    · simpa using fun hzero => hb (UInt8.toNat_inj.mp hzero)
  have hid : UInt8.ofNat ∘ UInt8.toNat = id := funext fun c => UInt8.ofNat_toNat
  rw [bigEndianDigits, hdigits, ← List.map_reverse, List.reverse_reverse, List.map_map, hid, List.map_id]

theorem bigEndianDigits_cons {n : ℕ} (hn : n ≠ 0) :
    ∃ b l, b ≠ 0 ∧ bigEndianDigits 256 n = b :: l := by
  have hne : Nat.digits 256 n ≠ [] := Nat.digits_ne_nil_iff_ne_zero.mpr hn
  have hlast : (Nat.digits 256 n).getLast hne < 256 :=
    Nat.digits_lt_base (by decide) (List.getLast_mem hne)
  have hrev : (Nat.digits 256 n).reverse =
      (Nat.digits 256 n).getLast hne :: (Nat.digits 256 n).dropLast.reverse := by
    conv_lhs => rw [← List.dropLast_append_getLast hne]
    exact List.reverse_concat' _ _
  refine ⟨.ofNat ((Nat.digits 256 n).getLast hne), (Nat.digits 256 n).dropLast.reverse.map UInt8.ofNat,
    fun hzero => ?_, ?_⟩
  · have htoNat := congrArg UInt8.toNat hzero
    rw [UInt8.toNat_ofNat', Nat.mod_eq_of_lt hlast] at htoNat
    exact Nat.getLast_digit_ne_zero 256 hn htoNat
  · rw [bigEndianDigits, hrev, List.map_cons]

/-- The bits of a number are eight for each digit after the first, and those of the first. -/
theorem size_bigEndian {b : UInt8} (hb : b ≠ 0) (l : List UInt8) :
    (bigEndian (b :: l)).size = 8 * l.length + b.toNat.size := by
  have hpos : b.toNat.size ≠ 0 := by
    rw [Ne, Nat.size_eq_zero]
    exact fun hzero => hb (UInt8.toNat_inj.mp hzero)
  have hlow : 2 ^ (b.toNat.size - 1) ≤ b.toNat := Nat.lt_size.mp (by omega)
  have hhigh : b.toNat < 2 ^ b.toNat.size := Nat.lt_size_self b.toNat
  have hrest := bigEndian_lt l
  have hpow : (256 : ℕ) ^ l.length = 2 ^ (8 * l.length) := by rw [pow_mul]; rfl
  apply Nat.le_antisymm
  · rw [Nat.size_le, bigEndian_cons, pow_add, ← hpow]
    nlinarith
  · have hlt : 8 * l.length + (b.toNat.size - 1) < (bigEndian (b :: l)).size := by
      rw [Nat.lt_size, bigEndian_cons, pow_add, ← hpow]
      nlinarith
    omega

theorem size_toNat_mod {b : UInt8} (hb : b ≠ 0) : b.toNat.size % 8 = 0 ↔ 0x80 ≤ b := by
  have hpos : b.toNat.size ≠ 0 := by
    rw [Ne, Nat.size_eq_zero]
    exact fun hzero => hb (UInt8.toNat_inj.mp hzero)
  have hle : b.toNat.size ≤ 8 := Nat.size_le.mpr b.toNat_lt
  have htop : 7 < b.toNat.size ↔ 2 ^ 7 ≤ b.toNat := Nat.lt_size
  rw [show 0x80 ≤ b ↔ 2 ^ 7 ≤ b.toNat from UInt8.le_iff_toNat_le, ← htop]
  omega

/-! ### Integers -/

/-- The contents of an `INTEGER` that is not negative, in its shortest form. -/
def MinimalInteger : List UInt8 → Prop
  | [] => False
  | [b] => b < 0x80
  | b :: c :: _ => b < 0x80 ∧ (b = 0 → 0x80 ≤ c)

theorem minimalInteger_integerContents (n : ℕ) : MinimalInteger (integerContents n) := by
  unfold integerContents
  by_cases hn : n = 0
  · rw [if_pos hn]
    exact (by decide : (0 : UInt8) < 0x80)
  · rw [if_neg hn]
    obtain ⟨b, l, hb, hdigits⟩ := bigEndianDigits_cons hn
    have hvalue : bigEndian (b :: l) = n := by rw [← hdigits, bigEndian_bigEndianDigits]
    have hsize : n.size % 8 = 0 ↔ 0x80 ≤ b := by
      rw [← size_toNat_mod hb, ← hvalue, size_bigEndian hb, Nat.mul_add_mod]
    rw [hdigits]
    split_ifs with hbits
    · exact ⟨by decide, fun _ => hsize.mp hbits⟩
    · have hlt : b < 0x80 := UInt8.not_le.mp fun hle => hbits (hsize.mpr hle)
      cases l with
      | nil => exact hlt
      | cons c l => exact ⟨hlt, fun hzero => (hb hzero).elim⟩

/-- An integer in its shortest form is written the way it was read. -/
theorem integerContents_bigEndian {contents : List UInt8} (hmin : MinimalInteger contents) :
    integerContents (bigEndian contents) = contents := by
  have hfirst : ∀ {b : UInt8} {l}, b ≠ 0 → bigEndian (b :: l) ≠ 0 ∧
      ((bigEndian (b :: l)).size % 8 = 0 ↔ 0x80 ≤ b) := fun {b l} hb => by
    refine ⟨fun hzero => ?_, by rw [← size_toNat_mod hb, size_bigEndian hb, Nat.mul_add_mod]⟩
    have hdigits := bigEndianDigits_bigEndian hb l
    rw [hzero] at hdigits
    cases hdigits
  rcases contents with _ | ⟨b, l⟩
  · exact hmin.elim
  by_cases hb : b = 0
  · subst hb
    rcases l with _ | ⟨c, l⟩
    · rfl
    have hc : 0x80 ≤ c := hmin.2 rfl
    have hne : c ≠ 0 := fun hzero => absurd (hzero ▸ hc) (by decide)
    have hvalue : bigEndian (0 :: c :: l) = bigEndian (c :: l) := by
      rw [bigEndian_cons, UInt8.toNat_zero, zero_mul, zero_add]
    obtain ⟨hpos, hsize⟩ := hfirst (l := l) hne
    rw [hvalue, integerContents, if_neg hpos, if_pos (hsize.mpr hc), bigEndianDigits_bigEndian hne]
  · have hlt : b < 0x80 := by
      cases l with
      | nil => exact hmin
      | cons c l => exact hmin.1
    obtain ⟨hpos, hsize⟩ := hfirst (l := l) hb
    rw [integerContents, if_neg hpos, if_neg fun hbits => UInt8.not_le.mpr hlt (hsize.mp hbits),
      bigEndianDigits_bigEndian hb]

/-- A number that is read from contents in their shortest form is their value. -/
theorem integerContents_of_smallInteger {contents : List UInt8} {n : ℕ}
    (hmin : MinimalInteger contents) (hread : smallInteger contents = some n) :
    integerContents n = contents := by
  have hvalue : bigEndian contents = n := by
    cases contents with
    | nil => exact hmin.elim
    | cons b l =>
        simp only [smallInteger, ite_eq_iff, Option.some.injEq, reduceCtorEq, and_false, false_or,
          or_false] at hread
        exact hread.2.2
  rw [← hvalue, integerContents_bigEndian hmin]

/-! ### Objects -/

theorem lengthOctets_append (l rest : List UInt8) (length : ℕ) :
    lengthOctets l.length length (l ++ rest) = some (length * 256 ^ l.length + bigEndian l) := by
  induction l generalizing length with
  | nil => simp [lengthOctets]
  | cons b l ih =>
      rw [List.length_cons, List.cons_append, lengthOctets, ih, bigEndian_cons, pow_succ]
      exact congrArg some (by ring)

theorem length_bigEndianDigits (n : ℕ) : (bigEndianDigits 256 n).length = (Nat.digits 256 n).length := by
  rw [bigEndianDigits, List.length_map, List.length_reverse]

/-- The first octet of a long length says how many follow. -/
theorem longLength_toNat {k : ℕ} (hk : k < 128) :
    UInt8.ofNat (0x80 ||| k) &&& 0x80 ≠ 0 ∧ (UInt8.ofNat (0x80 ||| k) &&& 0x7F).toNat = k :=
  (by decide : ∀ k : Fin 128, UInt8.ofNat (0x80 ||| k.val) &&& 0x80 ≠ 0 ∧
    (UInt8.ofNat (0x80 ||| k.val) &&& 0x7F).toNat = k.val) ⟨k, hk⟩

theorem shortLength_toNat {n : ℕ} (hn : n ≤ 127) :
    UInt8.ofNat n &&& 0x80 = 0 ∧ (UInt8.ofNat n).toNat = n :=
  (by decide : ∀ n : Fin 128, UInt8.ofNat n.val &&& 0x80 = 0 ∧ (UInt8.ofNat n.val).toNat = n.val)
    ⟨n, Nat.lt_succ_of_le hn⟩

/-- A written length is read back when four octets are enough for it. -/
theorem lengthField_encodeLength (findEoc : List UInt8 → Option ℕ) {n : ℕ} (hn : n < 2 ^ 32)
    (rest : List UInt8) :
    lengthField findEoc (encodeLength n ++ rest) = some (n, (encodeLength n).length) := by
  unfold encodeLength
  by_cases hshort : n ≤ 127
  · obtain ⟨hbit, hvalue⟩ := shortLength_toNat hshort
    rw [if_pos hshort, List.singleton_append, lengthField, if_pos hbit, hvalue, List.length_singleton]
  · have hlong : (bigEndianDigits 256 n).length ≤ 4 := by
      rw [length_bigEndianDigits]
      exact (Nat.digits_length_le_iff (by decide) n).mpr hn
    have hpos : (bigEndianDigits 256 n).length ≠ 0 := by
      obtain ⟨b, l, _, hdigits⟩ := bigEndianDigits_cons (n := n) (by omega)
      rw [hdigits, List.length_cons]
      exact Nat.succ_ne_zero _
    obtain ⟨hbit, hcount⟩ := longLength_toNat (k := (bigEndianDigits 256 n).length) (by omega)
    rw [if_neg hshort, List.cons_append, lengthField, if_neg hbit]
    simp only [hcount]
    rw [if_neg (by omega), if_neg (by omega), Nat.add_sub_cancel_left, lengthOctets_append,
      bigEndian_bigEndianDigits, zero_mul, zero_add, Option.map_some, List.length_cons, Nat.add_comm]

/-- No length of more than four octets is read. -/
theorem lengthField_encodeLength_none (findEoc : List UInt8 → Option ℕ) {n : ℕ} (hn : 2 ^ 32 ≤ n)
    (hsize : n < 2 ^ 64) (rest : List UInt8) : lengthField findEoc (encodeLength n ++ rest) = none := by
  have hlow : 4 < (bigEndianDigits 256 n).length := by
    rw [length_bigEndianDigits]
    exact (Nat.lt_digits_length_iff (by decide) n).mpr hn
  have hhigh : (bigEndianDigits 256 n).length ≤ 8 := by
    rw [length_bigEndianDigits]
    exact (Nat.digits_length_le_iff (by decide) n).mpr hsize
  obtain ⟨hbit, hcount⟩ := longLength_toNat (k := (bigEndianDigits 256 n).length) (by omega)
  rw [encodeLength, if_neg (by omega), List.cons_append, lengthField, if_neg hbit]
  simp only [hcount]
  rw [if_pos (by omega)]

/-- A tag that one octet holds and that is not the end-of-contents marker. -/
structure ShortTag (type_tag class_tag : ASN1_Tag) : Prop where
  type_le : type_tag ≤ 30
  class_mod : class_tag % 32 = 0
  class_lt : class_tag < 256
  ne_eoc : type_tag + class_tag ≠ 0

namespace ShortTag

variable {type_tag class_tag : ASN1_Tag}

instance : Decidable (ShortTag type_tag class_tag) :=
  decidable_of_iff
    (type_tag ≤ 30 ∧ class_tag % 32 = 0 ∧ class_tag < 256 ∧ type_tag + class_tag ≠ 0)
    ⟨fun ⟨htype, hmod, hclass, heoc⟩ => ⟨htype, hmod, hclass, heoc⟩,
      fun ⟨htype, hmod, hclass, heoc⟩ => ⟨htype, hmod, hclass, heoc⟩⟩

theorem or_eq (htag : ShortTag type_tag class_tag) : type_tag ||| class_tag = type_tag + class_tag := by
  obtain ⟨k, rfl⟩ := Nat.dvd_of_mod_eq_zero htag.class_mod
  rw [Nat.or_comm, Nat.add_comm]
  exact (Nat.two_pow_add_eq_or_of_lt (i := 5) (Nat.lt_of_le_of_lt htag.type_le (by decide)) k).symm

theorem decodeTag_encodeTag (htag : ShortTag type_tag class_tag) (rest : List UInt8) :
    decodeTag (encodeTag type_tag class_tag ++ rest) = some (type_tag, class_tag, rest) := by
  have hoctet : ∀ (t : Fin 31) (k : Fin 8),
      UInt8.ofNat (t.val + 32 * k.val) &&& 0x1F ≠ 0x1F ∧
      (UInt8.ofNat (t.val + 32 * k.val) &&& 0x1F).toNat = t.val ∧
      (UInt8.ofNat (t.val + 32 * k.val) &&& 0xE0).toNat = 32 * k.val := by decide
  rw [encodeTag, if_pos htag.type_le, htag.or_eq, List.singleton_append, decodeTag]
  obtain ⟨k, rfl⟩ := Nat.dvd_of_mod_eq_zero htag.class_mod
  have hk : k < 8 := Nat.lt_of_mul_lt_mul_left (show 32 * k < 32 * 8 from htag.class_lt)
  obtain ⟨hshort, htype, hclass⟩ := hoctet ⟨type_tag, Nat.lt_succ_of_le htag.type_le⟩ ⟨k, hk⟩
  rw [if_pos hshort, htype, hclass]

/-- A written object is the next one read, and what follows it is left. -/
theorem getNextObject_addObject (htag : ShortTag type_tag class_tag) {rep : List UInt8}
    (hrep : rep.length < 2 ^ 32) (rest : List UInt8) :
    getNextObject (addObject type_tag class_tag rep ++ rest) =
      some (⟨type_tag, class_tag, rep⟩, rest) := by
  have hset : type_tag ≠ NO_OBJECT := fun heq => absurd htag.type_le (by rw [heq]; decide)
  have heoc : ¬(type_tag ||| class_tag = EOC) := htag.or_eq ▸ htag.ne_eoc
  have hlength : decodeLength ALLOWED_EOC_NESTINGS (encodeLength rep.length ++ (rep ++ rest)) =
      some (rep.length, (encodeLength rep.length).length) := lengthField_encodeLength _ hrep _
  rw [getNextObject, nextObjectLoop, addObject, List.append_assoc, List.append_assoc,
    htag.decodeTag_encodeTag]
  simp [-Nat.or_eq_zero_iff, hset, heoc, hlength]

/-- An object of `2 ^ 32` octets or more is written but not read. -/
theorem getNextObject_addObject_none (htag : ShortTag type_tag class_tag) {rep : List UInt8}
    (hrep : 2 ^ 32 ≤ rep.length) (hsize : rep.length < 2 ^ 64) (rest : List UInt8) :
    getNextObject (addObject type_tag class_tag rep ++ rest) = none := by
  have hset : type_tag ≠ NO_OBJECT := fun heq => absurd htag.type_le (by rw [heq]; decide)
  have hlength : decodeLength ALLOWED_EOC_NESTINGS (encodeLength rep.length ++ (rep ++ rest)) = none :=
    lengthField_encodeLength_none _ hrep hsize _
  rw [getNextObject, nextObjectLoop, addObject, List.append_assoc, List.append_assoc,
    htag.decodeTag_encodeTag]
  simp [hset, hlength]

/-- Nothing is left behind the last object. -/
theorem getNextObject_addObject_last (htag : ShortTag type_tag class_tag) {rep : List UInt8}
    (hrep : rep.length < 2 ^ 32) :
    getNextObject (addObject type_tag class_tag rep) = some (⟨type_tag, class_tag, rep⟩, []) := by
  have hnext := htag.getNextObject_addObject hrep []
  rwa [List.append_nil] at hnext

theorem getNextObject_addObject_last_none (htag : ShortTag type_tag class_tag) {rep : List UInt8}
    (hrep : 2 ^ 32 ≤ rep.length) (hsize : rep.length < 2 ^ 64) :
    getNextObject (addObject type_tag class_tag rep) = none := by
  have hnone := htag.getNextObject_addObject_none hrep hsize []
  rwa [List.append_nil] at hnone

end ShortTag

theorem length_le_addObject (type_tag class_tag : ASN1_Tag) (rep : List UInt8) :
    rep.length ≤ (addObject type_tag class_tag rep).length := by
  rw [addObject, List.length_append]
  exact Nat.le_add_left _ _

theorem shortTag_integer : ShortTag INTEGER UNIVERSAL := by decide
theorem shortTag_octets : ShortTag OCTET_STRING UNIVERSAL := by decide
theorem shortTag_bits : ShortTag BIT_STRING UNIVERSAL := by decide
theorem shortTag_sequence : ShortTag SEQUENCE (UNIVERSAL ||| CONSTRUCTED) := by decide

/-- An integer that is written in any form of its contents is read as their value. -/
theorem decodeSmall_addObject {contents : List UInt8} (hlen : contents.length < 2 ^ 32)
    (rest : List UInt8) :
    decodeSmall (addObject INTEGER UNIVERSAL contents ++ rest) =
      (smallInteger contents).map (·, rest) := by
  rw [decodeSmall, shortTag_integer.getNextObject_addObject hlen]
  cases hvalue : smallInteger contents <;> simp [BER_Object.isA, hvalue]

/-- A written bit string is read back when its length is. -/
theorem decodeBits_encodeBits (contents : List UInt8) (hlen : contents.length + 1 < 2 ^ 32)
    (rest : List UInt8) : decodeBits (encodeBits contents ++ rest) = some (contents, rest) := by
  have hcontents : ((0 : UInt8) :: contents).length < 2 ^ 32 := hlen
  rw [decodeBits, encodeBits, shortTag_bits.getNextObject_addObject hcontents]
  simp [BER_Object.isA, bitContents]

theorem length_encodeTag {type_tag class_tag : ASN1_Tag} (htag : ShortTag type_tag class_tag) :
    (encodeTag type_tag class_tag).length = 1 := by
  rw [encodeTag, if_pos htag.type_le, List.length_singleton]

theorem length_encodeLength_le {n : ℕ} (hn : n < 2 ^ 32) : (encodeLength n).length ≤ 5 := by
  unfold encodeLength
  split_ifs
  · exact Nat.succ_le_succ (Nat.zero_le _)
  · rw [List.length_cons, length_bigEndianDigits]
    exact Nat.succ_le_succ ((Nat.digits_length_le_iff (by decide) n).mpr hn)

theorem length_encodeBits_le (contents : List UInt8) (hlen : contents.length + 1 < 2 ^ 32) :
    (encodeBits contents).length ≤ contents.length + 7 := by
  have hfield := length_encodeLength_le hlen
  rw [encodeBits, addObject, List.length_append, List.length_append, length_encodeTag shortTag_bits,
    List.length_cons]
  omega

theorem startCons_cons {contents : List UInt8} (hlen : contents.length < 2 ^ 32)
    (rest : List UInt8) : startCons SEQUENCE (cons SEQUENCE UNIVERSAL contents ++ rest) =
      some contents := by
  rw [startCons, cons, shortTag_sequence.getNextObject_addObject hlen]
  simp [BER_Object.isA]

/-! ### Splitting

What is written can be told apart from what follows it, whether or not it can be read. -/

theorem bigEndian_integerContents (n : ℕ) : bigEndian (integerContents n) = n := by
  unfold integerContents
  split_ifs with hzero hbits
  · rw [hzero]
    rfl
  · rw [bigEndian_cons, UInt8.toNat_zero, Nat.zero_mul, Nat.zero_add, bigEndian_bigEndianDigits]
  · exact bigEndian_bigEndianDigits n

theorem integerContents_injective : Function.Injective integerContents :=
  Function.LeftInverse.injective bigEndian_integerContents

/-- A written number is read back when it has no more than 32 bits. -/
theorem smallInteger_integerContents (n : ℕ) :
    smallInteger (integerContents n) = if n < 2 ^ 32 then some n else none := by
  have hmin := minimalInteger_integerContents n
  have hvalue := bigEndian_integerContents n
  cases hcontents : integerContents n with
  | nil =>
      rw [hcontents] at hmin
      exact hmin.elim
  | cons b l =>
      rw [hcontents] at hmin hvalue
      have hsign : ¬ (b &&& 0x80 ≠ 0) := by
        have hlt : b < 0x80 := by
          cases l with
          | nil => exact hmin
          | cons c l => exact hmin.1
        have hbit := (shortLength_toNat (Nat.lt_succ_iff.mp (UInt8.lt_iff_toNat_lt.mp hlt))).1
        rw [UInt8.ofNat_toNat] at hbit
        exact not_not.mpr hbit
      rw [smallInteger, if_neg hsign, hvalue]

theorem length_bigEndianDigits_le {n : ℕ} (hn : n < 2 ^ 64) : (bigEndianDigits 256 n).length ≤ 8 := by
  rw [length_bigEndianDigits]
  exact (Nat.digits_length_le_iff (by decide) n).mpr hn

theorem encodeLength_append_inj {n m : ℕ} (hn : n < 2 ^ 64) (hm : m < 2 ^ 64) {rest rest' : List UInt8}
    (heq : encodeLength n ++ rest = encodeLength m ++ rest') : n = m ∧ rest = rest' := by
  have hdigits := length_bigEndianDigits_le hn
  have hdigits' := length_bigEndianDigits_le hm
  unfold encodeLength at heq
  split_ifs at heq with hshort hshort' hshort'
  · rw [List.singleton_append, List.singleton_append, List.cons.injEq] at heq
    rw [← (shortLength_toNat hshort).2, ← (shortLength_toNat hshort').2, heq.1]
    exact ⟨rfl, heq.2⟩
  · rw [List.singleton_append, List.cons_append, List.cons.injEq] at heq
    have hbit := (shortLength_toNat hshort).1
    rw [heq.1] at hbit
    exact absurd hbit (longLength_toNat (by omega)).1
  · rw [List.singleton_append, List.cons_append, List.cons.injEq] at heq
    have hbit := (shortLength_toNat hshort').1
    rw [← heq.1] at hbit
    exact absurd hbit (longLength_toNat (by omega)).1
  · rw [List.cons_append, List.cons_append, List.cons.injEq] at heq
    have hlength : (bigEndianDigits 256 n).length = (bigEndianDigits 256 m).length := by
      rw [← (longLength_toNat (show (bigEndianDigits 256 n).length < 128 by omega)).2,
        ← (longLength_toNat (show (bigEndianDigits 256 m).length < 128 by omega)).2, heq.1]
    obtain ⟨hsame, hrest⟩ := List.append_inj heq.2 hlength
    rw [← bigEndian_bigEndianDigits n, ← bigEndian_bigEndianDigits m, hsame]
    exact ⟨rfl, hrest⟩

theorem addObject_append_inj {type_tag class_tag : ASN1_Tag} {rep rep' rest rest' : List UInt8}
    (hrep : rep.length < 2 ^ 64) (hrep' : rep'.length < 2 ^ 64)
    (heq : addObject type_tag class_tag rep ++ rest = addObject type_tag class_tag rep' ++ rest') :
    rep = rep' ∧ rest = rest' := by
  simp only [addObject, List.append_assoc] at heq
  obtain ⟨hlength, hrest⟩ := encodeLength_append_inj hrep hrep' (List.append_cancel_left heq)
  exact List.append_inj hrest hlength

/-- A row of objects determines the contents of each of them. -/
theorem objects_inj {F : Type} (type_tag : F → ASN1_Tag) {fields : List F} {contents contents' : F → List UInt8}
    (hsize : (fields.flatMap fun f => addObject (type_tag f) UNIVERSAL (contents f)).length < 2 ^ 64)
    (heq : (fields.flatMap fun f => addObject (type_tag f) UNIVERSAL (contents f)) =
      fields.flatMap fun f => addObject (type_tag f) UNIVERSAL (contents' f)) :
    ∀ f ∈ fields, contents f = contents' f := by
  induction fields with
  | nil => exact fun f hf => absurd hf List.not_mem_nil
  | cons f fields ih =>
      have hsize' := heq ▸ hsize
      simp only [List.flatMap_cons, List.length_append] at heq hsize hsize'
      have hlength := length_le_addObject (type_tag f) UNIVERSAL (contents f)
      have hlength' := length_le_addObject (type_tag f) UNIVERSAL (contents' f)
      obtain ⟨hfirst, hrest⟩ := addObject_append_inj (by omega) (by omega) heq
      intro g hg
      rcases List.mem_cons.mp hg with rfl | hg
      · exact hfirst
      · exact ih (by omega) hrest g hg

/-! ### Records

A record is a value for each field; it is written as the row of the objects of some of its fields. -/

/-- How each field is written: its tag, which is a universal one, and the contents of its object. -/
structure FieldCodec (F : Type) (V : F → Type) where
  type_tag : F → ASN1_Tag
  read : (f : F) → List UInt8 → Option (V f)
  write : (f : F) → V f → List UInt8
  shortTag : ∀ f, ShortTag (type_tag f) UNIVERSAL

namespace FieldCodec

variable {F : Type} {V : F → Type} (codec : FieldCodec F V)

/-- The row of objects with these contents. -/
def row (fields : List F) (contents : F → List UInt8) : List UInt8 :=
  fields.flatMap fun f => addObject (codec.type_tag f) UNIVERSAL (contents f)

def encode (fields : List F) (record : (f : F) → V f) : List UInt8 :=
  codec.row fields fun f => codec.write f (record f)

theorem length_contents_le {fields : List F} {contents : F → List UInt8} {f : F} (hf : f ∈ fields) :
    (contents f).length ≤ (codec.row fields contents).length := by
  have hmem : addObject (codec.type_tag f) UNIVERSAL (contents f) ∈
      fields.map fun f => addObject (codec.type_tag f) UNIVERSAL (contents f) := List.mem_map_of_mem hf
  rw [row, List.flatMap_def]
  exact (length_le_addObject _ _ _).trans (List.sublist_flatten_of_mem hmem).length_le

/-- A record is written as a row of contents when each of its values is. -/
theorem encode_eq_row {fields : List F} {contents : F → List UInt8} {record : (f : F) → V f}
    (hwrite : ∀ f ∈ fields, codec.write f (record f) = contents f) :
    codec.encode fields record = codec.row fields contents :=
  List.flatMap_congr fun f hf => congrArg (addObject (codec.type_tag f) UNIVERSAL) (hwrite f hf)

/-- Reads the fields one after the other into the record; what follows the last is not looked at. -/
def decode [DecidableEq F] : List F → ((f : F) → V f) → List UInt8 → Option ((f : F) → V f)
  | [], record, _ => some record
  | f :: fields, record, ber => do
      let (obj, ber) ← getNextObject ber
      if obj.isA (codec.type_tag f) UNIVERSAL then
        decode fields (Function.update record f (← codec.read f obj.value)) ber
      else none

variable [DecidableEq F]

/-- One field of a row. -/
theorem decode_row_cons {f : F} {contents : F → List UInt8} (hlen : (contents f).length < 2 ^ 32)
    (fields : List F) (record : (f : F) → V f) (rest : List UInt8) :
    codec.decode (f :: fields) record (codec.row (f :: fields) contents ++ rest) =
      (codec.read f (contents f)).bind fun value =>
        codec.decode fields (Function.update record f value) (codec.row fields contents ++ rest) := by
  have hnext : getNextObject (codec.row (f :: fields) contents ++ rest) =
      some (⟨codec.type_tag f, UNIVERSAL, contents f⟩, codec.row fields contents ++ rest) := by
    rw [row, List.flatMap_cons, List.append_assoc]
    exact (codec.shortTag f).getNextObject_addObject hlen _
  rw [decode, hnext]
  simp [BER_Object.isA]

/-- A row is read when each of its fields is. -/
theorem decode_row_isSome {fields : List F} {contents : F → List UInt8}
    (hlen : ∀ f ∈ fields, (contents f).length < 2 ^ 32)
    (hread : ∀ f ∈ fields, (codec.read f (contents f)).isSome = true) (record : (f : F) → V f)
    (rest : List UInt8) : (codec.decode fields record (codec.row fields contents ++ rest)).isSome = true := by
  induction fields generalizing record with
  | nil => rfl
  | cons f fields ih =>
      obtain ⟨value, hvalue⟩ := Option.isSome_iff_exists.mp (hread f List.mem_cons_self)
      rw [codec.decode_row_cons (hlen f List.mem_cons_self), hvalue]
      exact ih (fun g hg => hlen g (List.mem_cons_of_mem f hg)) (fun g hg => hread g (List.mem_cons_of_mem f hg)) _

/-- A field that is not read stays as it is. -/
theorem decode_other {fields : List F} {record record' : (f : F) → V f} {ber : List UInt8}
    (hdecode : codec.decode fields record ber = some record') {g : F} (hg : g ∉ fields) :
    record' g = record g := by
  induction fields generalizing record ber with
  | nil => rw [← Option.some.inj hdecode]
  | cons f fields ih =>
      obtain ⟨⟨obj, rest⟩, -, hdecode⟩ := Option.bind_eq_some_iff.mp hdecode
      dsimp only at hdecode
      split_ifs at hdecode
      obtain ⟨value, -, hdecode⟩ := Option.bind_eq_some_iff.mp hdecode
      rw [ih hdecode fun hmem => hg (List.mem_cons_of_mem f hmem)]
      have hne : g ≠ f := fun heq => hg (heq ▸ List.mem_cons_self)
      exact Function.update_of_ne hne _ _

/-- A row of objects is read only where each has the tag of its field. -/
theorem tags_of_decode {fields : List F} {type_tag : F → ASN1_Tag} {contents : F → List UInt8}
    (hshort : ∀ f, ShortTag (type_tag f) UNIVERSAL) {record record' : (f : F) → V f}
    (hlen : (fields.flatMap fun f => addObject (type_tag f) UNIVERSAL (contents f)).length < 2 ^ 32)
    (hdecode : codec.decode fields record (fields.flatMap fun f => addObject (type_tag f) UNIVERSAL (contents f)) =
      some record') : ∀ f ∈ fields, type_tag f = codec.type_tag f := by
  induction fields generalizing record with
  | nil => exact fun f hf => absurd hf List.not_mem_nil
  | cons f fields ih =>
      rw [List.flatMap_cons, List.length_append] at hlen
      have hcontents := length_le_addObject (type_tag f) UNIVERSAL (contents f)
      rw [List.flatMap_cons, decode, (hshort f).getNextObject_addObject (by omega)] at hdecode
      obtain ⟨⟨obj, rest⟩, hnext, hdecode⟩ := Option.bind_eq_some_iff.mp hdecode
      cases hnext
      dsimp only at hdecode
      split_ifs at hdecode with hhere
      obtain ⟨value, -, hdecode⟩ := Option.bind_eq_some_iff.mp hdecode
      intro g hg
      rcases List.mem_cons.mp hg with rfl | hg
      · simpa [BER_Object.isA] using hhere
      · exact ih (by omega) hdecode g hg

/-- Every field of a row is read from its own contents. -/
theorem read_of_decode_row {fields : List F} (hnodup : fields.Nodup) {contents : F → List UInt8}
    (hlen : ∀ f ∈ fields, (contents f).length < 2 ^ 32) {record record' : (f : F) → V f}
    {rest : List UInt8}
    (hdecode : codec.decode fields record (codec.row fields contents ++ rest) = some record') :
    ∀ f ∈ fields, codec.read f (contents f) = some (record' f) := by
  induction fields generalizing record with
  | nil => exact fun f hf => absurd hf List.not_mem_nil
  | cons f fields ih =>
      have htail : ∀ f' ∈ fields, (contents f').length < 2 ^ 32 := fun f' hf' =>
        hlen f' (List.mem_cons_of_mem f hf')
      rw [codec.decode_row_cons (hlen f List.mem_cons_self)] at hdecode
      obtain ⟨value, hread, hdecode⟩ := Option.bind_eq_some_iff.mp hdecode
      obtain ⟨hnot, hnodup⟩ := List.nodup_cons.mp hnodup
      intro g hg
      rcases List.mem_cons.mp hg with rfl | hg
      · rw [codec.decode_other hdecode hnot, Function.update_self, hread]
      · exact ih hnodup htail hdecode g hg

end FieldCodec

end Ber
