import Gridnet.Bytes
import Gridnet.Ber

/-! Trees of objects as bytes. Codecs are given by what the code relies on: the decoder reads back what the
encoder writes. There is one that writes in DER whatever its decoder can read. -/

namespace Gridnet

open Ber Ber.ASN1_Tag

/-- `DER_Encoder` and `BER_Decoder` on the objects the node writes; the decoder throws on `none`. -/
structure DerCodec where
  der : Asn1 → Bytes
  ber : Bytes → Option Asn1
  ber_der : ∀ object, ber (der object) = some object
  der_ne_nil : ∀ object, der object ≠ []

/-- A way to mark where the contents of an object begin and end, for contents that are not too long. -/
structure Framing where
  add : ASN1_Tag → ASN1_Tag → Bytes → Bytes
  fits : ℕ → Prop
  fits_of_le : ∀ {m n}, m ≤ n → fits n → fits m
  add_ne_nil : ∀ t c rep, add t c rep ≠ []
  length_le : ∀ t c rep, rep.length ≤ (add t c rep).length
  delimits : ∀ {t c t' c' rep rep' rest rest'}, ShortTag t c → ShortTag t' c' → fits rep.length →
    fits rep'.length → add t c rep ++ rest = add t' c' rep' ++ rest' → t = t' ∧ rep = rep' ∧ rest = rest'

namespace Asn1

def type_tag : Asn1 → ASN1_Tag
  | .integer _ => INTEGER
  | .octets _ => OCTET_STRING
  | .sequence _ => SEQUENCE

def class_tag : Asn1 → ASN1_Tag
  | .sequence _ => UNIVERSAL ||| CONSTRUCTED
  | _ => UNIVERSAL

theorem shortTag (object : Asn1) : ShortTag object.type_tag object.class_tag := by
  cases object with
  | integer n => exact shortTag_integer
  | octets b => exact shortTag_octets
  | sequence objects => exact shortTag_sequence

variable (framing : Framing)

mutual

def framed : Asn1 → Bytes
  | .integer n => framing.add INTEGER UNIVERSAL (integerContents n)
  | .octets b => framing.add OCTET_STRING UNIVERSAL b
  | .sequence objects => framing.add SEQUENCE (UNIVERSAL ||| CONSTRUCTED) (framedAll objects)

def framedAll : List Asn1 → Bytes
  | [] => []
  | object :: objects => framed object ++ framedAll objects

end

def contents : Asn1 → Bytes
  | .integer n => integerContents n
  | .octets b => b
  | .sequence objects => framedAll framing objects

theorem framed_eq (object : Asn1) :
    object.framed framing = framing.add object.type_tag object.class_tag (object.contents framing) := by
  cases object <;> rfl

variable {framing}

theorem framed_ne_nil (object : Asn1) : object.framed framing ≠ [] := by
  rw [framed_eq]
  exact framing.add_ne_nil _ _ _

/-- An object that was framed ends where its frame does. -/
theorem framed_delimits {x y : Asn1} {rest rest' : Bytes} (hx : framing.fits (x.framed framing).length)
    (hy : framing.fits (y.framed framing).length)
    (heq : x.framed framing ++ rest = y.framed framing ++ rest') :
    x.type_tag = y.type_tag ∧ x.contents framing = y.contents framing ∧ rest = rest' := by
  rw [framed_eq] at hx hy
  rw [framed_eq, framed_eq] at heq
  exact framing.delimits x.shortTag y.shortTag (framing.fits_of_le (framing.length_le _ _ _) hx)
    (framing.fits_of_le (framing.length_le _ _ _) hy) heq

theorem bigEndian_integerContents (n : ℕ) : bigEndian (integerContents n) = n := by
  unfold integerContents
  split_ifs with hzero hsign
  · rw [hzero]
    rfl
  · rw [bigEndian_cons, UInt8.toNat_zero, zero_mul, zero_add, bigEndian_bigEndianDigits]
  · exact bigEndian_bigEndianDigits n

mutual

/-- The tags tell the kinds of objects apart, and the contents the objects of a kind. -/
theorem eq_of_contents : ∀ (x y : Asn1), framing.fits (x.framed framing).length →
    framing.fits (y.framed framing).length → x.type_tag = y.type_tag →
      x.contents framing = y.contents framing → x = y
  | .integer m, .integer n, _, _, _, hcontents => by
      have hvalue := congrArg bigEndian hcontents
      rw [contents, contents, bigEndian_integerContents, bigEndian_integerContents] at hvalue
      rw [hvalue]
  | .octets b, .octets b', _, _, _, hcontents => congrArg Asn1.octets hcontents
  | .sequence l, .sequence l', hx, hy, _, hcontents => by
      have hl := framing.fits_of_le (framing.length_le _ _ _) hx
      have hl' := framing.fits_of_le (framing.length_le _ _ _) hy
      rw [eq_of_framedAll l l' hl hl' hcontents]
  | .integer _, .octets _, _, _, htag, _ => nomatch htag
  | .integer _, .sequence _, _, _, htag, _ => nomatch htag
  | .octets _, .integer _, _, _, htag, _ => nomatch htag
  | .octets _, .sequence _, _, _, htag, _ => nomatch htag
  | .sequence _, .integer _, _, _, htag, _ => nomatch htag
  | .sequence _, .octets _, _, _, htag, _ => nomatch htag

theorem eq_of_framedAll : ∀ (l l' : List Asn1), framing.fits (framedAll framing l).length →
    framing.fits (framedAll framing l').length → framedAll framing l = framedAll framing l' → l = l'
  | [], [], _, _, _ => rfl
  | [], y :: l', _, _, heq => by
      rw [framedAll, framedAll] at heq
      exact absurd (List.append_eq_nil_iff.mp heq.symm).1 y.framed_ne_nil
  | x :: l, [], _, _, heq => by
      rw [framedAll, framedAll] at heq
      exact absurd (List.append_eq_nil_iff.mp heq).1 x.framed_ne_nil
  | x :: l, y :: l', hl, hl', heq => by
      rw [framedAll, List.length_append] at hl hl'
      rw [framedAll, framedAll] at heq
      have hx := framing.fits_of_le (Nat.le_add_right _ _) hl
      have hy := framing.fits_of_le (Nat.le_add_right _ _) hl'
      obtain ⟨htag, hcontents, hrest⟩ := framed_delimits hx hy heq
      rw [eq_of_contents x y hx hy htag hcontents,
        eq_of_framedAll l l' (framing.fits_of_le (Nat.le_add_left _ _) hl)
          (framing.fits_of_le (Nat.le_add_left _ _) hl') hrest]

end

theorem framed_injective {x y : Asn1} (hx : framing.fits (x.framed framing).length)
    (hy : framing.fits (y.framed framing).length) (heq : x.framed framing = y.framed framing) : x = y := by
  have happend : x.framed framing ++ [] = y.framed framing ++ [] := congrArg (· ++ []) heq
  obtain ⟨htag, hcontents, -⟩ := framed_delimits hx hy happend
  exact eq_of_contents x y hx hy htag hcontents

end Asn1

/-! ### The encoding of the code -/

/-- Objects in DER, whose decoder takes lengths of four octets. -/
def Framing.distinguished : Framing where
  add := addObject
  fits n := n < 2 ^ 32
  fits_of_le hle hfits := Nat.lt_of_le_of_lt hle hfits
  add_ne_nil t c rep hnil := by
    have htag : encodeTag t c ≠ [] := by
      unfold encodeTag
      split_ifs <;> exact List.cons_ne_nil _ _
    rw [addObject, List.append_eq_nil_iff, List.append_eq_nil_iff] at hnil
    exact htag hnil.1.1
  length_le := length_le_addObject
  delimits := by
    intro t c t' c' rep rep' rest rest' ht ht' hrep hrep' heq
    have hread := ht.getNextObject_addObject hrep rest
    rw [heq, ht'.getNextObject_addObject hrep', Option.some.injEq, Prod.mk.injEq, BER_Object.mk.injEq] at hread
    exact ⟨hread.1.1.symm, hread.1.2.2.symm, hread.2.symm⟩

theorem replicate_delimits {k k' : ℕ} {l l' : Bytes}
    (heq : List.replicate k (1 : UInt8) ++ 0 :: l = List.replicate k' 1 ++ 0 :: l') : k = k' ∧ l = l' := by
  induction k generalizing k' with
  | zero =>
      cases k' with
      | zero => exact ⟨rfl, (List.cons.inj heq).2⟩
      | succ k' => cases (List.cons.inj heq).1
  | succ k ih =>
      cases k' with
      | zero => cases (List.cons.inj heq).1
      | succ k' =>
          obtain ⟨hk, hl⟩ := ih (List.cons.inj heq).2
          exact ⟨congrArg Nat.succ hk, hl⟩

/-- Objects of any length, marked by an octet that begins none of those in DER. -/
def Framing.counted : Framing where
  add t _ rep := 0xFF :: .ofNat t :: (List.replicate rep.length 1 ++ 0 :: rep)
  fits _ := True
  fits_of_le _ _ := trivial
  add_ne_nil _ _ _ := List.cons_ne_nil _ _
  length_le t c rep := by
    rw [List.length_cons, List.length_cons, List.length_append, List.length_cons]
    omega
  delimits := by
    intro t c t' c' rep rep' rest rest' ht ht' _ _ heq
    rw [List.cons_append, List.cons_append, List.cons_append, List.cons_append, List.append_assoc,
      List.append_assoc, List.cons.injEq, List.cons.injEq] at heq
    obtain ⟨-, htag, hcontents⟩ := heq
    obtain ⟨hlength, hrest⟩ := replicate_delimits hcontents
    obtain ⟨hrep, hrest⟩ := List.append_inj hrest hlength
    have hvalue := congrArg UInt8.toNat htag
    have hlt : t < 2 ^ 8 := Nat.lt_of_le_of_lt ht.type_le (by decide)
    have hlt' : t' < 2 ^ 8 := Nat.lt_of_le_of_lt ht'.type_le (by decide)
    rw [UInt8.toNat_ofNat', UInt8.toNat_ofNat', Nat.mod_eq_of_lt hlt, Nat.mod_eq_of_lt hlt'] at hvalue
    exact ⟨hvalue, hrep, hrest⟩

/-- DER for what its decoder reads back. -/
def Asn1.der (object : Asn1) : Bytes :=
  if (object.framed .distinguished).length < 2 ^ 32 then object.framed .distinguished
  else object.framed .counted

theorem Asn1.framed_ne_counted (x y : Asn1) : x.framed .distinguished ≠ y.framed .counted := by
  intro heq
  rw [Asn1.framed_eq, Asn1.framed_eq] at heq
  change addObject _ _ _ = 0xFF :: _ at heq
  rw [addObject, encodeTag, if_pos x.shortTag.type_le, List.append_assoc, List.singleton_append] at heq
  have hhead := (List.cons.inj heq).1
  cases x with
  | integer n => exact absurd hhead (show ¬ UInt8.ofNat (INTEGER ||| UNIVERSAL) = 0xFF by decide)
  | octets b => exact absurd hhead (show ¬ UInt8.ofNat (OCTET_STRING ||| UNIVERSAL) = 0xFF by decide)
  | sequence objects =>
      exact absurd hhead (show ¬ UInt8.ofNat (SEQUENCE ||| (UNIVERSAL ||| CONSTRUCTED)) = 0xFF by decide)

theorem Asn1.der_injective : Function.Injective Asn1.der := by
  intro x y heq
  unfold Asn1.der at heq
  split_ifs at heq with hx hy hy
  · exact framed_injective hx hy heq
  · exact absurd heq (framed_ne_counted x y)
  · exact absurd heq.symm (framed_ne_counted y x)
  · exact framed_injective trivial trivial heq

open Classical in
noncomputable def DerCodec.standard : DerCodec where
  der := Asn1.der
  ber := Function.partialInv Asn1.der
  ber_der object := Function.partialInv_left Asn1.der_injective object
  der_ne_nil object := by
    unfold Asn1.der
    split_ifs <;> exact object.framed_ne_nil

end Gridnet
