import Gridnet.VerifiableNodes

/-! What signing, verifying and storing a verifiable leave of it. `verifySignature` packs it without its signature into
the buffer that `getHash` takes for up to date. -/

namespace Gridnet

open Ber ASN1_Tag

/-- The documented behaviour of the tools and the crypto factory: conversions read back what they write, a public key
has 32 bytes, and a signature is one. -/
structure SealingTools.Documented (S : SealingTools) : Prop where
  bigInt_round : ∀ n, S.BytesToBigInt (S.BigIntToBytes n) = some n
  bigSInt_round : ∀ n : ℤ, n.natAbs < 2 ^ 256 → S.BytesToBigSInt (S.BigSIntToBytes n) = some n
  getPubFromPriv_length : ∀ privKey, privKey.length = 32 → (S.getPubFromPriv privKey).length = 32
  signData_ne_nil : ∀ data key, S.signData data key ≠ []
  verifySignature_signData : ∀ data privKey, privKey.length = 32 →
    S.verifySignature (S.signData data (S.BERVector privKey)) data (S.getPubFromPriv privKey) = true

variable {S : SealingTools}

namespace VerifiableNode

/-! ### Signing -/

/-- A signature that was made is accepted, whatever key is handed over. -/
theorem verifySignature_sign (hS : S.Documented) (v : VerifiableNode) {privKey : Bytes} (publicKey : Bytes)
    (hkey : privKey.length = 32) :
    ∃ signed, v.sign S privKey = some signed ∧ (signed.verifySignature S publicKey).1 = true := by
  refine ⟨_, if_pos hkey, ?_⟩
  have hpub : ¬(S.getPubFromPriv privKey).length ≠ 32 := not_not.mpr (hS.getPubFromPriv_length privKey hkey)
  have hsigned : ∀ data, ¬S.signData data (S.BERVector privKey) = [] := fun data => hS.signData_ne_nil data _
  unfold verifySignature
  simp only [prepare, hpub, hsigned, if_false]
  exact hS.verifySignature_signData _ privKey hkey

/-! ### Verifying -/

/-- The packed data tell the public key. -/
theorem packedRawData_pubKey {v : CVerifiable} {mPubKey : Bytes}
    (heq : ({ v with mPubKey } : CVerifiable).packedRawData S true = v.packedRawData S true) : mPubKey = v.mPubKey := by
  have hbody := nodeData_inj heq
  unfold CVerifiable.packedBody at hbody
  simp only [List.append_cancel_left_eq, List.append_cancel_right_eq] at hbody
  exact addObject_inj hbody

/-- A signature that is there shows. -/
theorem packedRawData_ne {v : CVerifiable} (hsigned : v.mSignature ≠ []) :
    v.packedRawData S true ≠ v.packedRawData S false := by
  intro heq
  have hbody := nodeData_inj heq
  unfold CVerifiable.packedBody at hbody
  simp only [List.append_cancel_left_eq, List.append_cancel_right_eq, if_true, Bool.false_eq_true, if_false] at hbody
  have hlengths := congrArg List.length hbody
  have hmono := length_encodeLength_mono (Nat.zero_le v.mSignature.length)
  have hpos := List.length_pos_iff.mpr hsigned
  simp only [encodeOctets, encodeNull, addObject, List.length_append, length_encodeTag shortTag_octets,
    length_encodeTag (by decide : ShortTag NULL_TAG UNIVERSAL), List.length_nil] at hlengths
  omega

/-- Verifying leaves `getPackedData` and `getHash` as they were, whatever is packed around the buffer, whatever hash is
taken and whatever is drawn. -/
def Undisturbed (S : SealingTools) (v : VerifiableNode) (publicKey : Bytes) : Prop :=
  ∀ (packNode : Bytes → Bytes) (nodeHash : NodeHash S) (random : Bytes),
    ((v.verifySignature S publicKey).2.getPackedData S packNode random).1 = (v.getPackedData S packNode random).1 ∧
      nodeHash.getHash (v.verifySignature S publicKey).2 = nodeHash.getHash v

/-- There is no signature, or no key that is assigned newly, and no buffer that the verification changes: it already is
the one without the signature, and counts as up to date. -/
def Quiet (S : SealingTools) (v : VerifiableNode) (publicKey : Bytes) : Prop :=
  v.mSignature = [] ∨ (v.mPubKey.length ≠ 32 ∧ publicKey = v.mPubKey) ∨
    (v.mPubKey.length = 32 ∧ v.mIsPrepared = true ∧ v.mMainRAWData = v.toCVerifiable.packedRawData S false)

variable {v : VerifiableNode} {publicKey : Bytes}

/-- The ID that `getPackedData` packs. -/
def packedGUID (S : SealingTools) (v : VerifiableNode) (random : Bytes) : Bytes :=
  if v.mGUID.length ≠ 32 then (v.genID S random).mGUID else v.mGUID

theorem getPackedData_eq (packNode : Bytes → Bytes) (v : VerifiableNode) (random : Bytes) :
    (v.getPackedData S packNode random).1 =
      packNode (({ v.toCVerifiable with mGUID := v.packedGUID S random } : CVerifiable).packedRawData S true) := by
  unfold getPackedData packedGUID
  split_ifs <;> rfl

theorem verifySignature_of_unsigned (hunsigned : v.mSignature = []) : (v.verifySignature S publicKey).2 = v := by
  rw [verifySignature, if_pos hunsigned]

theorem verifySignature_of_key (hsigned : v.mSignature ≠ []) (hkey : v.mPubKey.length = 32) :
    (v.verifySignature S publicKey).2 = v.prepare S false := by
  rw [verifySignature, if_neg hsigned]
  simp [hkey, prepare]

/-- Without a key of its own the verifiable keeps the one that is handed over. -/
theorem verifySignature_of_noKey (hsigned : v.mSignature ≠ []) (hkey : v.mPubKey.length ≠ 32) :
    (v.verifySignature S publicKey).2.toCVerifiable = { v.toCVerifiable with mPubKey := publicKey } := by
  rw [verifySignature, if_neg hsigned]
  simp only [hkey, ne_eq, not_false_iff, if_true]
  split_ifs <;> rfl

theorem verifySignature_of_sameKey (hkey : v.mPubKey.length ≠ 32) :
    (v.verifySignature S v.mPubKey).2 = v := by
  rw [verifySignature]
  split_ifs
  · rfl
  · simp [hkey]

/-- A key that is assigned newly shows in the packed data. -/
theorem mPubKey_of_undisturbed (hundisturbed : v.Undisturbed S publicKey) (hsigned : v.mSignature ≠ [])
    (hkey : v.mPubKey.length ≠ 32) : publicKey = v.mPubKey := by
  have hpacked := (hundisturbed id (.ofData S id) []).1
  have hassigned : (v.verifySignature S publicKey).2.toCVerifiable = _ := verifySignature_of_noKey hsigned hkey
  have hid : (v.verifySignature S publicKey).2.packedGUID S [] = v.packedGUID S [] := by
    unfold packedGUID genID
    rw [hassigned]
  rw [getPackedData_eq, getPackedData_eq, hid, hassigned] at hpacked
  exact packedRawData_pubKey (v := { v.toCVerifiable with mGUID := v.packedGUID S [] }) hpacked

/-- With a key of its own a signed verifiable keeps its hash exactly if the buffer was the unsigned one before. -/
theorem undisturbed_of_key_iff (hsigned : v.mSignature ≠ []) (hkey : v.mPubKey.length = 32) :
    v.Undisturbed S publicKey ↔ v.mIsPrepared = true ∧ v.mMainRAWData = v.toCVerifiable.packedRawData S false := by
  have hverified : (v.verifySignature S publicKey).2 = v.prepare S false := verifySignature_of_key hsigned hkey
  constructor
  · intro hundisturbed
    have hhash := (hundisturbed id (.ofData S id) []).2
    rw [hverified, (NodeHash.ofData S id).prepared (v.prepare S false) rfl] at hhash
    cases hprepared : v.mIsPrepared with
    | true =>
        rw [(NodeHash.ofData S id).prepared v hprepared] at hhash
        exact ⟨rfl, hhash.symm⟩
    | false =>
        rw [(NodeHash.ofData S id).unprepared v hprepared] at hhash
        exact absurd hhash.symm (packedRawData_ne hsigned)
  · rintro ⟨hprepared, hbuffer⟩ packNode nodeHash random
    rw [hverified]
    refine ⟨by rw [getPackedData_eq, getPackedData_eq]; rfl, ?_⟩
    rw [nodeHash.prepared v hprepared, nodeHash.prepared _ rfl, hbuffer]
    rfl

theorem undisturbed_iff_quiet : v.Undisturbed S publicKey ↔ v.Quiet S publicKey := by
  by_cases hsigned : v.mSignature = []
  case pos =>
    refine iff_of_true (fun packNode nodeHash random => ?_) (.inl hsigned)
    rw [verifySignature_of_unsigned hsigned]
    exact ⟨rfl, rfl⟩
  case neg =>
    by_cases hkey : v.mPubKey.length = 32
    case pos =>
      rw [undisturbed_of_key_iff hsigned hkey]
      simp [Quiet, hsigned, hkey]
    case neg =>
      have hquiet : v.Quiet S publicKey ↔ publicKey = v.mPubKey := by simp [Quiet, hsigned, hkey]
      rw [hquiet]
      constructor
      · exact fun hundisturbed => mPubKey_of_undisturbed hundisturbed hsigned hkey
      · rintro rfl
        rw [Undisturbed, verifySignature_of_sameKey hkey]
        exact fun packNode nodeHash random => ⟨rfl, rfl⟩

end VerifiableNode
end Gridnet
