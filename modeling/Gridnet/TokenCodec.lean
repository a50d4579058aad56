import Gridnet.BerRecords
import Gridnet.DerTrees
import Gridnet.PoolModel

/-! Transmission tokens as they are packed in DER and read again. The number of a bank is written as what it is and read
from 32 bits; a version other than the first is not read. -/

namespace Gridnet

open Ber ASN1_Tag

namespace CTransmissionToken

/-- What is signed, which is everything but the signature and the recipient. -/
def signedFields (token : CTransmissionToken) : Bytes :=
  encodeOctets token.mRevealedHash ++ (encodeSmall token.mBankIndex.toNat ++
    (encodeOctets (BigIntToBytes token.mBankUsageDepth.toNat) ++
      (encodeOctets (BigIntToBytes token.mRevealedHashesCount.toNat) ++
        (encodeOctets token.mTokenPoolID ++ (encodeOctets token.mDataHash ++
          encodeOctets (BigIntToBytes token.mValue.toNat))))))

/-- The optional fields. -/
def optionalFields (token : CTransmissionToken) : Bytes :=
  encodeOctets token.mSig ++ if token.mRecipient.length > 0 then encodeOctets token.mRecipient else []

/-- `getPackedData`. -/
def pack (token : CTransmissionToken) (includeSig : Bool) : Bytes :=
  cons SEQUENCE UNIVERSAL (encodeSmall token.mVersion.toNat ++ cons SEQUENCE UNIVERSAL
    (token.signedFields ++ if includeSig then token.optionalFields else []))

/-- A field that is read if there is anything left. -/
def decodeOptional (ber : Bytes) : Option (Bytes × Bytes) := if ber = [] then some ([], []) else decodeOctets ber

/-- The fields of version 1. -/
def decodeV1 (dec2 : Bytes) : Option (CTransmissionToken × Bytes) := do
  let (mRevealedHash, dec2) ← decodeOctets dec2
  let (mBankIndex, dec2) ← decodeSmall dec2
  let (mBankUsageDepth, dec2) ← decodeOctets dec2
  let (mRevealedHashesCount, dec2) ← decodeOctets dec2
  let (mTokenPoolID, dec2) ← decodeOctets dec2
  let (mDataHash, dec2) ← decodeOctets dec2
  let (mValue, dec2) ← decodeOctets dec2
  let (mSig, dec2) ← decodeOptional dec2
  let (mRecipient, dec2) ← decodeOptional dec2
  return ({
    mVersion := 1
    mBankIndex := .ofNat mBankIndex
    mValue := .ofNat 256 (BytesToBigInt mValue)
    mRevealedHash
    mRevealedHashesCount := .ofNat 256 (BytesToBigInt mRevealedHashesCount)
    mBankUsageDepth := .ofNat 256 (BytesToBigInt mBankUsageDepth)
    mDataHash
    mTokenPoolID
    mSig
    mRecipient }, dec2)

/-- `instantiate`; what lies behind the outer sequence is not looked at. -/
def instantiate (packedData : Bytes) : Option CTransmissionToken := do
  let (dec1, _) ← enterCons SEQUENCE packedData
  let (mVersion, dec1) ← decodeSmall dec1
  let (dec2, dec1) ← enterCons SEQUENCE dec1
  if mVersion = 1 then
    let (token, dec2) ← decodeV1 dec2
    if dec2 = [] ∧ dec1 = [] then some token else none
  else none

/-- What is read back. -/
def Packable (token : CTransmissionToken) : Prop := token.mVersion = 1 ∧ token.mBankIndex.toNat < 2 ^ 32

instance : DecidablePred Packable := fun _ => inferInstanceAs (Decidable (_ ∧ _))

theorem decodeOptional_recipient {contents : Bytes} (hlen : contents.length < 2 ^ 32) :
    decodeOptional (if contents.length > 0 then encodeOctets contents else []) = some (contents, []) := by
  split_ifs with hsome
  · have hoctets := decodeOctets_encodeOctets hlen []
    rw [List.append_nil] at hoctets
    have hne : encodeOctets contents ≠ [] := by
      intro hnil
      rw [hnil] at hoctets
      cases hoctets
    rw [decodeOptional, if_neg hne, hoctets]
  · rw [List.eq_nil_of_length_eq_zero (Nat.eq_zero_of_not_pos hsome)]
    rfl

theorem decodeOptional_encodeOctets {contents : Bytes} (hlen : contents.length < 2 ^ 32) (rest : Bytes) :
    decodeOptional (encodeOctets contents ++ rest) = some (contents, rest) := by
  have hoctets := decodeOctets_encodeOctets hlen rest
  have hne : encodeOctets contents ++ rest ≠ [] := by
    intro hnil
    rw [hnil] at hoctets
    cases hoctets
  rw [decodeOptional, if_neg hne, hoctets]

theorem length_encodeOctets (contents : Bytes) : contents.length ≤ (encodeOctets contents).length :=
  length_le_addObject _ _ _

theorem decodeV1_fields (token : CTransmissionToken)
    (hlen : (token.signedFields ++ token.optionalFields).length < 2 ^ 32) :
    decodeV1 (token.signedFields ++ token.optionalFields) =
      if token.mBankIndex.toNat < 2 ^ 32 then some ({ token with mVersion := 1 }, []) else none := by
  have hrevealed := length_encodeOctets token.mRevealedHash
  have hdepth := length_encodeOctets (BigIntToBytes token.mBankUsageDepth.toNat)
  have hcount := length_encodeOctets (BigIntToBytes token.mRevealedHashesCount.toNat)
  have hpool := length_encodeOctets token.mTokenPoolID
  have hdata := length_encodeOctets token.mDataHash
  have hvalue := length_encodeOctets (BigIntToBytes token.mValue.toNat)
  have hsig := length_encodeOctets token.mSig
  have hrecipient : token.mRecipient.length ≤
      (if token.mRecipient.length > 0 then encodeOctets token.mRecipient else []).length := by
    split_ifs with hsome
    · exact length_encodeOctets _
    · exact not_lt.mp hsome
  simp only [signedFields, optionalFields, List.length_append] at hlen
  unfold decodeV1 signedFields optionalFields
  simp only [List.append_assoc]
  rw [decodeOctets_encodeOctets (by omega), Option.bind_eq_bind, Option.bind_some]
  dsimp only
  rw [decodeSmall_encodeSmall_eq token.mBankIndex.toNat_lt]
  by_cases hindex : token.mBankIndex.toNat < 2 ^ 32
  · rw [if_pos hindex, if_pos hindex]
    simp only [Option.bind_eq_bind, Option.bind_some]
    rw [decodeOctets_encodeOctets (by omega), Option.bind_some, decodeOctets_encodeOctets (by omega),
      Option.bind_some, decodeOctets_encodeOctets (by omega), Option.bind_some,
      decodeOctets_encodeOctets (by omega), Option.bind_some, decodeOctets_encodeOctets (by omega),
      Option.bind_some, decodeOptional_encodeOctets (by omega), Option.bind_some, decodeOptional_recipient (by omega),
      Option.bind_some]
    simp
  · rw [if_neg hindex, if_neg hindex]
    rfl

theorem length_le_pack (token : CTransmissionToken) :
    (encodeSmall token.mVersion.toNat ++ cons SEQUENCE UNIVERSAL
      (token.signedFields ++ token.optionalFields)).length ≤ (token.pack true).length :=
  length_le_addObject _ _ _

/-- A token is read back as it was when its version and its bank are read, and else not at all. -/
theorem instantiate_pack {token : CTransmissionToken} (hlen : (token.pack true).length < 2 ^ 32) :
    instantiate (token.pack true) = if token.Packable then some token else none := by
  have houter := token.length_le_pack.trans_lt hlen
  have hinner : (token.signedFields ++ token.optionalFields).length ≤
      (cons SEQUENCE UNIVERSAL (token.signedFields ++ token.optionalFields)).length := length_le_addObject _ _ _
  have hfields : (token.signedFields ++ token.optionalFields).length < 2 ^ 32 := by
    rw [List.length_append] at houter
    omega
  have hdec1 : enterCons SEQUENCE (token.pack true) = some (encodeSmall token.mVersion.toNat ++
      cons SEQUENCE UNIVERSAL (token.signedFields ++ token.optionalFields), []) := enterCons_cons_last houter
  rw [instantiate, hdec1, Option.bind_eq_bind, Option.bind_some]
  dsimp only
  rw [decodeSmall_encodeSmall_eq token.mVersion.toNat_lt]
  by_cases hversion : token.mVersion = 1
  · rw [hversion, if_pos (by decide), Option.bind_eq_bind, Option.bind_some]
    dsimp only
    rw [enterCons_cons_last hfields, Option.bind_some]
    dsimp only
    rw [if_pos (by decide), decodeV1_fields token hfields]
    by_cases hindex : token.mBankIndex.toNat < 2 ^ 32
    · rw [if_pos hindex, if_pos ⟨hversion, hindex⟩, ← hversion]
      rfl
    · rw [if_neg hindex, if_neg fun hpackable => hindex hpackable.2]
      rfl
  · have hnumber : token.mVersion.toNat ≠ 1 := fun hone => hversion (UInt64.toNat_inj.mp hone)
    rw [if_neg (c := token.Packable) fun hpackable => hversion hpackable.1]
    by_cases hsmall : token.mVersion.toNat < 2 ^ 32
    · rw [if_pos hsmall, Option.bind_eq_bind, Option.bind_some]
      dsimp only
      rw [enterCons_cons_last hfields, Option.bind_some]
      dsimp only
      rw [if_neg hnumber]
    · rw [if_neg hsmall]
      rfl

/-- What is read at all can be packed again. -/
theorem packable_of_instantiate {packedData : Bytes} {token : CTransmissionToken}
    (hread : instantiate packedData = some token) : token.Packable := by
  obtain ⟨⟨dec1, rest⟩, -, hread⟩ := Option.bind_eq_some_iff.mp hread
  obtain ⟨⟨mVersion, dec1⟩, -, hread⟩ := Option.bind_eq_some_iff.mp hread
  obtain ⟨⟨dec2, dec1⟩, -, hread⟩ := Option.bind_eq_some_iff.mp hread
  dsimp only at hread
  split_ifs at hread
  obtain ⟨⟨read, dec2⟩, hfields, hread⟩ := Option.bind_eq_some_iff.mp hread
  dsimp only at hread
  split_ifs at hread
  cases hread
  obtain ⟨⟨mRevealedHash, dec2⟩, -, hfields⟩ := Option.bind_eq_some_iff.mp hfields
  obtain ⟨⟨mBankIndex, dec2⟩, hindex, hfields⟩ := Option.bind_eq_some_iff.mp hfields
  obtain ⟨⟨mBankUsageDepth, dec2⟩, -, hfields⟩ := Option.bind_eq_some_iff.mp hfields
  obtain ⟨⟨mRevealedHashesCount, dec2⟩, -, hfields⟩ := Option.bind_eq_some_iff.mp hfields
  obtain ⟨⟨mTokenPoolID, dec2⟩, -, hfields⟩ := Option.bind_eq_some_iff.mp hfields
  obtain ⟨⟨mDataHash, dec2⟩, -, hfields⟩ := Option.bind_eq_some_iff.mp hfields
  obtain ⟨⟨mValue, dec2⟩, -, hfields⟩ := Option.bind_eq_some_iff.mp hfields
  obtain ⟨⟨mSig, dec2⟩, -, hfields⟩ := Option.bind_eq_some_iff.mp hfields
  obtain ⟨⟨mRecipient, dec2⟩, -, hfields⟩ := Option.bind_eq_some_iff.mp hfields
  cases hfields
  have hsmall := decodeSmall_lt hindex
  exact ⟨rfl, by rwa [UInt64.toNat_ofNat_of_lt' (hsmall.trans (by decide))]⟩

theorem pack_ne_nil (token : CTransmissionToken) : token.pack true ≠ [] := by
  rw [pack, cons_sequence]
  exact List.cons_ne_nil _ _

end CTransmissionToken

end Gridnet
