import Gridnet.Ber

/-! Records that are the whole contents of a constructed object: nothing may be left of it behind the last field. -/

namespace Ber

open ASN1_Tag

/-- `start_cons` of a decoder that goes on: the contents of the next object, and what is left behind it. -/
def enterCons (type_tag : ASN1_Tag) (ber : List UInt8) : Option (List UInt8 × List UInt8) := do
  let (obj, rest) ← getNextObject ber
  if obj.isA type_tag (UNIVERSAL ||| CONSTRUCTED) then some (obj.value, rest) else none

theorem enterCons_cons {contents : List UInt8} (hlen : contents.length < 2 ^ 32) (rest : List UInt8) :
    enterCons SEQUENCE (cons SEQUENCE UNIVERSAL contents ++ rest) = some (contents, rest) := by
  rw [enterCons, cons, shortTag_sequence.getNextObject_addObject hlen]
  simp [BER_Object.isA]

theorem enterCons_cons_last {contents : List UInt8} (hlen : contents.length < 2 ^ 32) :
    enterCons SEQUENCE (cons SEQUENCE UNIVERSAL contents) = some (contents, []) := by
  have henter := enterCons_cons hlen []
  rwa [List.append_nil] at henter

/-- An object is entered only if it is not too long to be read. -/
theorem length_of_enterCons {contents rest : List UInt8} {entered : List UInt8 × List UInt8}
    (hsize : contents.length < 2 ^ 64)
    (henter : enterCons SEQUENCE (cons SEQUENCE UNIVERSAL contents ++ rest) = some entered) :
    contents.length < 2 ^ 32 := by
  by_contra hlong
  rw [enterCons, cons, shortTag_sequence.getNextObject_addObject_none (Nat.not_lt.mp hlong) hsize] at henter
  cases henter

theorem length_integerContents_lt {n : ℕ} (hn : n < 2 ^ 64) : (integerContents n).length < 2 ^ 32 := by
  have hdigits := length_bigEndianDigits_le hn
  unfold integerContents
  split_ifs
  · decide
  · rw [List.length_cons]
    omega
  · omega

/-- A number is read back from 32 bits. -/
theorem decodeSmall_encodeSmall_eq {n : ℕ} (hn : n < 2 ^ 64) (rest : List UInt8) :
    decodeSmall (encodeSmall n ++ rest) = if n < 2 ^ 32 then some (n, rest) else none := by
  rw [encodeSmall, decodeSmall_addObject (length_integerContents_lt hn), smallInteger_integerContents]
  split_ifs <;> rfl

theorem decodeSmall_encodeSmall {n : ℕ} (hn : n < 2 ^ 32) (rest : List UInt8) :
    decodeSmall (encodeSmall n ++ rest) = some (n, rest) := by
  rw [decodeSmall_encodeSmall_eq (hn.trans (by decide)), if_pos hn]

theorem smallInteger_lt {contents : List UInt8} {n : ℕ} (hsmall : smallInteger contents = some n) : n < 2 ^ 32 := by
  cases contents with
  | nil =>
      cases hsmall
      decide
  | cons b contents =>
      rw [smallInteger] at hsmall
      split_ifs at hsmall with _ hlt
      cases hsmall
      exact hlt

theorem decodeSmall_lt {ber rest : List UInt8} {n : ℕ} (hread : decodeSmall ber = some (n, rest)) : n < 2 ^ 32 := by
  obtain ⟨⟨obj, ber⟩, -, hread⟩ := Option.bind_eq_some_iff.mp hread
  dsimp only at hread
  split_ifs at hread
  obtain ⟨read, hsmall, hread⟩ := Option.bind_eq_some_iff.mp hread
  cases hread
  exact smallInteger_lt hsmall

/-- The octets of a sequence start with its tag. -/
theorem cons_sequence (contents : List UInt8) :
    cons SEQUENCE UNIVERSAL contents = 0x30 :: (encodeLength contents.length ++ contents) := rfl

theorem lengthOctets_none {count length : ℕ} {ber : List UInt8} (hshort : ber.length < count) :
    lengthOctets count length ber = none := by
  induction count generalizing length ber with
  | zero => exact absurd hshort (Nat.not_lt_zero _)
  | succ count ih =>
      cases ber with
      | nil => rfl
      | cons b ber =>
          rw [lengthOctets]
          exact ih (Nat.lt_of_succ_lt_succ hshort)

/-- `encode` of octets as an `OCTET_STRING`. -/
def encodeOctets (contents : List UInt8) : List UInt8 := addObject OCTET_STRING UNIVERSAL contents

/-- `decode` of the contents of an `OCTET_STRING`. -/
def decodeOctets (ber : List UInt8) : Option (List UInt8 × List UInt8) := do
  let (obj, ber) ← getNextObject ber
  if obj.isA OCTET_STRING UNIVERSAL then some (obj.value, ber) else none

theorem decodeOctets_encodeOctets {contents : List UInt8} (hlen : contents.length < 2 ^ 32) (rest : List UInt8) :
    decodeOctets (encodeOctets contents ++ rest) = some (contents, rest) := by
  rw [decodeOctets, encodeOctets, shortTag_octets.getNextObject_addObject hlen]
  simp [BER_Object.isA]

theorem length_encodeLength_mono {m n : ℕ} (hle : m ≤ n) : (encodeLength m).length ≤ (encodeLength n).length := by
  unfold encodeLength
  split_ifs with hm hn hn
  · exact le_rfl
  · exact Nat.succ_le_succ (Nat.zero_le _)
  · omega
  · rw [List.length_cons, List.length_cons, length_bigEndianDigits, length_bigEndianDigits]
    exact Nat.succ_le_succ (Nat.le_length_digits_le 256 m n hle)

/-- Objects of one tag have the same contents when they are the same, however long they are. -/
theorem addObject_inj {type_tag class_tag : ASN1_Tag} {rep rep' : List UInt8}
    (heq : addObject type_tag class_tag rep = addObject type_tag class_tag rep') : rep = rep' := by
  have hlengths := congrArg List.length heq
  simp only [addObject, List.length_append] at hlengths
  have hlength : rep.length = rep'.length := by
    rcases le_total rep.length rep'.length with hle | hle
    · have hmono := length_encodeLength_mono hle
      omega
    · have hmono := length_encodeLength_mono hle
      omega
  rw [addObject, addObject, hlength] at heq
  exact List.append_cancel_left heq

/-! ### Numbered objects -/

/-- A constructed object behind two numbers, its kind and its version. -/
def numbered (kind version : ℕ) (contents : List UInt8) : List UInt8 :=
  encodeSmall kind ++ (encodeSmall version ++ cons SEQUENCE UNIVERSAL contents)

theorem length_le_numbered (kind version : ℕ) (contents : List UInt8) :
    contents.length ≤ (numbered kind version contents).length := by
  have hcontents : contents.length ≤ (cons SEQUENCE UNIVERSAL contents).length := length_le_addObject _ _ _
  simp only [numbered, List.length_append]
  omega

/-- The data of a node with such contents. -/
def nodeData (kind version : ℕ) (contents : List UInt8) : List UInt8 :=
  cons SEQUENCE UNIVERSAL (numbered kind version contents)

theorem enterCons_nodeData {kind version : ℕ} {contents : List UInt8}
    (hlen : (numbered kind version contents).length < 2 ^ 32) :
    enterCons SEQUENCE (nodeData kind version contents) = some (numbered kind version contents, []) :=
  enterCons_cons_last hlen

theorem length_of_enterCons_nodeData {kind version : ℕ} {contents : List UInt8} {entered : List UInt8 × List UInt8}
    (hsize : (nodeData kind version contents).length < 2 ^ 64)
    (henter : enterCons SEQUENCE (nodeData kind version contents) = some entered) :
    (numbered kind version contents).length < 2 ^ 32 := by
  rw [nodeData, ← List.append_nil (cons _ _ _)] at henter
  exact length_of_enterCons ((length_le_addObject _ _ _).trans_lt hsize) henter

theorem nodeData_inj {kind version : ℕ} {contents contents' : List UInt8}
    (heq : nodeData kind version contents = nodeData kind version contents') : contents = contents' := by
  exact addObject_inj (List.append_cancel_left (List.append_cancel_left (addObject_inj heq)))

namespace FieldCodec

variable {F : Type} {V : F → Type} (codec : FieldCodec F V) [DecidableEq F]

/-- Reads the fields one after the other; `end_cons` throws if anything is left behind the last. -/
def decodeAll : List F → ((f : F) → V f) → List UInt8 → Option ((f : F) → V f)
  | [], record, ber => if ber = [] then some record else none
  | f :: fields, record, ber => do
      let (obj, ber) ← getNextObject ber
      if obj.isA (codec.type_tag f) UNIVERSAL then
        decodeAll fields (Function.update record f (← codec.read f obj.value)) ber
      else none

variable {codec} {fields : List F} {contents : F → List UInt8}

/-- One field of a row. -/
theorem decodeAll_row_cons {f : F} (hlen : (contents f).length < 2 ^ 32) (fields : List F)
    (record : (f : F) → V f) :
    codec.decodeAll (f :: fields) record (codec.row (f :: fields) contents) =
      (codec.read f (contents f)).bind fun value =>
        codec.decodeAll fields (Function.update record f value) (codec.row fields contents) := by
  have hnext : getNextObject (codec.row (f :: fields) contents) =
      some (⟨codec.type_tag f, UNIVERSAL, contents f⟩, codec.row fields contents) := by
    rw [row, List.flatMap_cons]
    exact (codec.shortTag f).getNextObject_addObject hlen _
  rw [decodeAll, hnext]
  simp [BER_Object.isA]

/-- A row is read as the values that its contents are read as. -/
theorem decodeAll_row {value : (f : F) → V f} (hlen : ∀ f ∈ fields, (contents f).length < 2 ^ 32)
    (hread : ∀ f ∈ fields, codec.read f (contents f) = some (value f)) (record : (f : F) → V f) :
    codec.decodeAll fields record (codec.row fields contents) =
      some fun f => if f ∈ fields then value f else record f := by
  induction fields generalizing record with
  | nil => simp [decodeAll, row]
  | cons f fields ih =>
      rw [decodeAll_row_cons (hlen f List.mem_cons_self), hread f List.mem_cons_self, Option.bind_some,
        ih (fun g hg => hlen g (List.mem_cons_of_mem f hg)) (fun g hg => hread g (List.mem_cons_of_mem f hg))]
      refine congrArg some (funext fun g => ?_)
      by_cases hg : g ∈ fields
      · rw [if_pos hg, if_pos (List.mem_cons_of_mem f hg)]
      · rw [if_neg hg]
        by_cases hf : g = f
        · subst hf
          rw [Function.update_self, if_pos List.mem_cons_self]
        · rw [Function.update_of_ne hf, if_neg fun hmem => (List.mem_cons.mp hmem).elim hf hg]

/-- Of a row that is read the contents of every field can be. -/
theorem read_of_decodeAll_row {record record' : (f : F) → V f}
    (hlen : ∀ f ∈ fields, (contents f).length < 2 ^ 32)
    (hdecode : codec.decodeAll fields record (codec.row fields contents) = some record') :
    ∀ f ∈ fields, ∃ value, codec.read f (contents f) = some value := by
  induction fields generalizing record with
  | nil => exact fun f hf => absurd hf List.not_mem_nil
  | cons f fields ih =>
      rw [decodeAll_row_cons (hlen f List.mem_cons_self)] at hdecode
      obtain ⟨value, hvalue, hrest⟩ := Option.bind_eq_some_iff.mp hdecode
      intro g hg
      rcases List.mem_cons.mp hg with rfl | hg
      · exact ⟨value, hvalue⟩
      · exact ih (fun g hg => hlen g (List.mem_cons_of_mem f hg)) hrest g hg

/-- A field that is not read stays as it is. -/
theorem decodeAll_other {record record' : (f : F) → V f} {ber : List UInt8}
    (hdecode : codec.decodeAll fields record ber = some record') {g : F} (hg : g ∉ fields) :
    record' g = record g := by
  induction fields generalizing record ber with
  | nil =>
      rw [decodeAll] at hdecode
      split_ifs at hdecode
      cases hdecode
      rfl
  | cons f fields ih =>
      obtain ⟨⟨obj, rest⟩, -, hdecode⟩ := Option.bind_eq_some_iff.mp hdecode
      dsimp only at hdecode
      split_ifs at hdecode
      obtain ⟨value, -, hdecode⟩ := Option.bind_eq_some_iff.mp hdecode
      rw [ih hdecode fun hmem => hg (List.mem_cons_of_mem f hmem)]
      have hne : g ≠ f := fun heq => hg (heq ▸ List.mem_cons_self)
      exact Function.update_of_ne hne _ _

/-- Every value that is read was read from some contents. -/
theorem read_of_decodeAll (hnodup : fields.Nodup) {record record' : (f : F) → V f} {ber : List UInt8}
    (hdecode : codec.decodeAll fields record ber = some record') :
    ∀ f ∈ fields, ∃ contents, codec.read f contents = some (record' f) := by
  induction fields generalizing record ber with
  | nil => exact fun f hf => absurd hf List.not_mem_nil
  | cons f fields ih =>
      obtain ⟨⟨obj, rest⟩, -, hdecode⟩ := Option.bind_eq_some_iff.mp hdecode
      dsimp only at hdecode
      split_ifs at hdecode
      obtain ⟨value, hread, hdecode⟩ := Option.bind_eq_some_iff.mp hdecode
      obtain ⟨hnot, hnodup⟩ := List.nodup_cons.mp hnodup
      intro g hg
      rcases List.mem_cons.mp hg with rfl | hg
      · exact ⟨obj.value, by rw [decodeAll_other hdecode hnot, Function.update_self, hread]⟩
      · exact ih hnodup hdecode g hg

end FieldCodec

end Ber
