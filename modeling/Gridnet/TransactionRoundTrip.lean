import Gridnet.BlockIdentity
import Gridnet.TransactionCodec
import Mathlib.Data.UInt

/-! Which transactions `genNode` reads back from what `prepare` writes, and which byte strings it makes a transaction
of that is all theirs. -/

namespace Gridnet

open Ber ASN1_Tag

variable {Trie : Type} {services : ChainServices Trie}

/-! ### Fields -/

namespace TransactionField

variable {version : ℕ}

/-- A value that the format of the version has room for: in version 1 the price is a `size_t`. -/
def Fits (version : ℕ) : (f : TransactionField) → f.Value → Prop
  | mErgPrice, n => version = 1 → n.toNat < 2 ^ 64
  | _, _ => True

/-- A value that is read back. -/
def Small (version : ℕ) : (f : TransactionField) → f.Value → Prop
  | mNonce, n | mTimestamp, n | mLockTime, n => n.toNat < 2 ^ 32
  | mErgPrice, n => version = 1 → n.toNat < 2 ^ 32
  | _, _ => True

theorem read_number {n : UInt64} (hsmall : n.toNat < 2 ^ 32) :
    (smallInteger (integerContents n.toNat)).map UInt64.ofNat = some n := by
  rw [smallInteger_integerContents, if_pos hsmall, Option.map_some, UInt64.ofNat_toNat]

theorem small_of_read_number {n value : ℕ} (hread : smallInteger (integerContents n) = some value) : n < 2 ^ 32 := by
  rw [smallInteger_integerContents] at hread
  by_contra hbig
  rw [if_neg hbig] at hread
  cases hread

/-- The price of version 1 passes a `size_t`. -/
theorem narrowed {n : BigInt} (hfits : n.toNat < 2 ^ 64) : (UInt64.ofNat n.toNat).toNat = n.toNat := by
  rw [UInt64.toNat_ofNat', Nat.mod_eq_of_lt hfits]

theorem read_write (hround : ∀ n, services.BytesToBigInt (services.BigIntToBytes n) = some n) {f : TransactionField}
    {value : f.Value} (hsmall : f.Small version value) :
    f.read services version (f.write services version value) = some value := by
  cases f with
  | mNonce => exact read_number hsmall
  | mTimestamp => exact read_number hsmall
  | mLockTime => exact read_number hsmall
  | mErgPrice =>
      rw [read, write]
      split_ifs with hone
      · have hlt : BitVec.toNat value < 2 ^ 32 := hsmall hone
        rw [narrowed (hlt.trans (by decide)), smallInteger_integerContents, if_pos hlt, Option.map_some,
          BitVec.ofNat_toNat, BitVec.setWidth_eq]
      · exact hround value
  | mErgLimit => exact hround value
  | _ => rfl

theorem small_of_read {f : TransactionField} {value value' : f.Value} (hfits : f.Fits version value)
    (hread : f.read services version (f.write services version value) = some value') : f.Small version value := by
  have hnumber : ∀ n n' : UInt64, (smallInteger (integerContents n.toNat)).map UInt64.ofNat = some n' →
      n.toNat < 2 ^ 32 := by
    intro n n' hsome
    obtain ⟨number, hsmall, -⟩ := Option.map_eq_some_iff.mp hsome
    exact small_of_read_number hsmall
  cases f with
  | mNonce => exact hnumber _ _ hread
  | mTimestamp => exact hnumber _ _ hread
  | mLockTime => exact hnumber _ _ hread
  | mErgPrice =>
      intro hone
      rw [read, write, if_pos hone, if_pos hone, narrowed (hfits hone)] at hread
      obtain ⟨number, hsmall, -⟩ := Option.map_eq_some_iff.mp hread
      exact small_of_read_number hsmall
  | _ => trivial

end TransactionField

/-! ### Start of a node -/

namespace StoredTransaction

theorem decodeStart_nodeData {mSubType version : ℕ} {row : Bytes} (hsubtype : mSubType < 2 ^ 32)
    (hversion : version < 2 ^ 32) (hlen : (numbered mSubType version row).length < 2 ^ 32) :
    decodeStart (nodeData mSubType version row) = some (mSubType, version, row, []) := by
  have hinner := enterCons_cons_last ((length_le_numbered mSubType version row).trans_lt hlen)
  rw [decodeStart, enterCons_nodeData hlen]
  simp only [Option.bind_eq_bind, Option.bind_some, numbered, decodeSmall_encodeSmall hsubtype,
    decodeSmall_encodeSmall hversion, hinner]
  rfl

variable {t : StoredTransaction} {rawData : Bytes}

/-- What is to be restored: the transaction, in the version that it was written in. -/
def restored (t : StoredTransaction) : StoredTransaction :=
  { t with mOriginalVersion := t.targetVersion, mVersion := t.targetVersion }

/-- `genNode` restores the transaction from its data, whatever its constructor left, and the transaction packs to the
same data again. -/
def RoundTrips (services : ChainServices Trie) (t : StoredTransaction) (rawData : Bytes) : Prop :=
  (∀ fresh, genNode services fresh rawData = .made t.restored) ∧ t.restored.prepare services true = some rawData

/-- Every number that is written as an `INTEGER` has at most 32 bits, and the contents are shorter than `2 ^ 32`. -/
structure Readable (services : ChainServices Trie) (t : StoredTransaction) : Prop where
  nonce : t.mNonce.toNat < 2 ^ 32
  time : t.mTimestamp.toNat < 2 ^ 32
  lockTime : t.mLockTime.toNat < 2 ^ 32
  price : t.targetVersion = 1 → t.mErgPrice.toNat < 2 ^ 32
  length_lt : (t.packedBody services false).length < 2 ^ 32

theorem toNat_eq_one_iff (t : StoredTransaction) : t.targetVersion.toNat = 1 ↔ t.targetVersion = 1 :=
  UInt64.toNat_inj (b := 1)

theorem small_of_readable (hreadable : t.Readable services) (f : TransactionField) :
    f.Small t.targetVersion.toNat (t.record false f) := by
  cases f with
  | mNonce => exact hreadable.nonce
  | mTimestamp => exact hreadable.time
  | mLockTime => exact hreadable.lockTime
  | mErgPrice => exact fun hone => hreadable.price (t.toNat_eq_one_iff.mp hone)
  | _ => trivial

theorem packedRow_eq (t : StoredTransaction) : t.packedRow services false =
    (transactionCodec services t.targetVersion.toNat).row TransactionField.layout fun f =>
      f.write services t.targetVersion.toNat (t.record false f) :=
  (List.flatMap_append (f := fun f : TransactionField => addObject (f.type_tag t.targetVersion.toNat) UNIVERSAL
    (f.write services t.targetVersion.toNat (t.record false f)))).symm

/-- What is packed: the data of a node of the subtype and a known version. -/
theorem prepare_eq_some (hprepare : t.prepare services true = some rawData) :
    t.mSubType = 2 ∧ TransactionVersion t.targetVersion.toNat ∧
      rawData = nodeData 2 t.targetVersion.toNat (t.packedRow services false) := by
  rw [prepare, internalsPrepare] at hprepare
  split_ifs at hprepare with hsubtype hversion
  refine ⟨hsubtype, hversion, ?_⟩
  rw [← Option.some.inj hprepare, packedBody, hsubtype]
  rfl

theorem version_lt {version : ℕ} (hversion : TransactionVersion version) : version < 2 ^ 32 := by
  have hmem : version = 1 ∨ version = 2 ∨ version = 3 := by simpa [TransactionVersion] using hversion
  omega

/-- The contents of every field are shorter than the row of them. -/
theorem length_write_lt (hlen : (t.packedRow services false).length < 2 ^ 32) (f : TransactionField) :
    (f.write services t.targetVersion.toNat (t.record false f)).length < 2 ^ 32 := by
  rw [packedRow_eq] at hlen
  exact ((transactionCodec services t.targetVersion.toNat).length_contents_le f.mem_layout).trans_lt hlen

/-- A readable transaction is read from its data. -/
theorem genNode_packed (hround : ∀ n, services.BytesToBigInt (services.BigIntToBytes n) = some n)
    (hprepare : t.prepare services true = some rawData) (hreadable : t.Readable services)
    (fresh : StoredTransaction) : genNode services fresh rawData = .made t.restored := by
  obtain ⟨hsubtype, hversion, rfl⟩ := prepare_eq_some hprepare
  have hlen := hreadable.length_lt
  rw [packedBody, hsubtype] at hlen
  have hrow := (length_le_numbered 2 t.targetVersion.toNat (t.packedRow services false)).trans_lt hlen
  have hstart : decodeStart (nodeData 2 t.targetVersion.toNat (t.packedRow services false)) =
      some (2, t.targetVersion.toNat, t.packedRow services false, []) :=
    decodeStart_nodeData (by decide) (version_lt hversion) hlen
  have hfields : readFields services t.targetVersion.toNat (t.packedRow services false) =
      some (t.record false) := by
    rw [readFields, packedRow_eq, FieldCodec.decodeAll_row (fun f _ => length_write_lt hrow f)
      fun f _ => TransactionField.read_write hround (small_of_readable hreadable f)]
    exact congrArg some (funext fun f => if_pos f.mem_layout)
  rw [genNode, hstart]
  dsimp only
  rw [decodeVersion, if_pos hversion, hfields]
  simp [copyCold, assign, begun, restored, record, hsubtype]

section Started

variable {mSubType version : ℕ} {dec2 dec1 : Bytes}

section Decoded

variable {fresh : StoredTransaction}

end Decoded

end Started

open CBlock

end StoredTransaction

end Gridnet
