import Gridnet.BerRecords
import Gridnet.BlockHeaderModel
import Gridnet.TransactionSigning

/-! Transactions as `prepare` packs them and `genNode` reads them. All versions have the same layout, but for the
price, and the cold properties of the node are overwritten with however many bytes their field has. -/

namespace Gridnet

open Ber ASN1_Tag

/-- A transaction with what of it is stored but not signed. -/
structure StoredTransaction extends CTransaction where
  mSubType : UInt64 := 2
  ColdProperties : UInt8 := 0
  mLockTime : UInt64 := 0
  deriving DecidableEq, Repr

inductive TransactionField where
  | ColdProperties
  | mIssuer
  | mPubKey
  | mNonce
  | mCode
  | mTimestamp
  | mErgPrice
  | mErgLimit
  | mExtData
  | mLockTime
  | mSignature
  deriving DecidableEq, Repr

namespace TransactionField

@[reducible] def Value : TransactionField → Type
  | mNonce | mTimestamp | mLockTime => UInt64
  | mErgPrice | mErgLimit => BigInt
  | ColdProperties | mIssuer | mPubKey | mCode | mExtData | mSignature => Bytes

/-- The order of the fields, the same in every version. -/
def layout : List TransactionField :=
  [ColdProperties, mIssuer, mPubKey, mNonce, mCode, mTimestamp, mErgPrice, mErgLimit, mExtData, mLockTime, mSignature]

theorem mem_layout (f : TransactionField) : f ∈ layout := by
  cases f <;> decide

/-- In version 1 the price is a number. -/
def type_tag (version : ℕ) : TransactionField → ASN1_Tag
  | mNonce | mTimestamp | mLockTime => INTEGER
  | mErgPrice => if version = 1 then INTEGER else OCTET_STRING
  | ColdProperties | mIssuer | mPubKey | mCode | mErgLimit | mExtData | mSignature => OCTET_STRING

theorem shortTag (version : ℕ) (f : TransactionField) : ShortTag (f.type_tag version) UNIVERSAL := by
  cases f with
  | mNonce => exact shortTag_integer
  | mTimestamp => exact shortTag_integer
  | mLockTime => exact shortTag_integer
  | mErgPrice =>
      rw [type_tag]
      split_ifs
      · exact shortTag_integer
      · exact shortTag_octets
  | _ => exact shortTag_octets

variable {Trie : Type} (services : ChainServices Trie)

def read (version : ℕ) : (f : TransactionField) → Bytes → Option f.Value
  | mNonce, contents | mTimestamp, contents | mLockTime, contents => (smallInteger contents).map .ofNat
  | mErgPrice, contents =>
      if version = 1 then (smallInteger contents).map (.ofNat 256) else services.BytesToBigInt contents
  | mErgLimit, contents => services.BytesToBigInt contents
  | ColdProperties, contents | mIssuer, contents | mPubKey, contents => some contents
  | mCode, contents | mExtData, contents | mSignature, contents => some contents

def write (version : ℕ) : (f : TransactionField) → f.Value → Bytes
  | mNonce, n | mTimestamp, n | mLockTime, n => integerContents n.toNat
  | mErgPrice, n =>
      if version = 1 then integerContents (UInt64.ofNat n.toNat).toNat else services.BigIntToBytes n
  | mErgLimit, n => services.BigIntToBytes n
  | ColdProperties, b | mIssuer, b | mPubKey, b => b
  | mCode, b | mExtData, b | mSignature, b => b

end TransactionField

variable {Trie : Type}

def transactionCodec (services : ChainServices Trie) (version : ℕ) :
    FieldCodec TransactionField TransactionField.Value where
  type_tag f := f.type_tag version
  read f := f.read services version
  write f := f.write services version
  shortTag f := f.shortTag version

/-- The versions that the switches know. -/
def TransactionVersion (version : ℕ) : Prop := version ∈ [1, 2, 3]

instance (version : ℕ) : Decidable (TransactionVersion version) := inferInstanceAs (Decidable (_ ∈ _))

namespace StoredTransaction

/-! ### Packing -/

/-- The values of the fields. The cold properties are not the author's, who signs a zero in their place. -/
def record (t : StoredTransaction) (ommitSignature : Bool) : (f : TransactionField) → f.Value
  | .ColdProperties => [if ommitSignature then 0 else t.ColdProperties]
  | .mIssuer => t.mIssuer
  | .mPubKey => t.mPubKey
  | .mNonce => t.mNonce
  | .mCode => t.mCode
  | .mTimestamp => t.mTimestamp
  | .mErgPrice => t.mErgPrice
  | .mErgLimit => t.mErgLimit
  | .mExtData => t.mExtData
  | .mLockTime => t.mLockTime
  | .mSignature => t.mSignature

/-- The fields, with a `NULL` in the place of a signature that is left out. -/
def packedRow (services : ChainServices Trie) (t : StoredTransaction) (ommitSignature : Bool) : Bytes :=
  let codec := transactionCodec services t.targetVersion.toNat
  codec.encode TransactionField.layout.dropLast (t.record ommitSignature) ++
    if ommitSignature then encodeNull
    else codec.encode [.mSignature] (t.record ommitSignature)

def packedBody (services : ChainServices Trie) (t : StoredTransaction) (ommitSignature : Bool) : Bytes :=
  numbered t.mSubType.toNat t.targetVersion.toNat (t.packedRow services ommitSignature)

/-- `none` where it throws: for other versions there are no fields, and one `end_cons` too many. -/
def internalsPrepare (services : ChainServices Trie) (t : StoredTransaction) (ommitSignature : Bool) : Option Bytes :=
  if TransactionVersion t.targetVersion.toNat then
    some (cons SEQUENCE UNIVERSAL (t.packedBody services ommitSignature))
  else none

/-- What `prepare` sets the raw data to, within its assertion. -/
def prepare (services : ChainServices Trie) (t : StoredTransaction) (includeSig : Bool) : Option Bytes :=
  if t.mSubType = 2 then t.internalsPrepare services (!includeSig) else none

/-! ### Reading -/

/-- What `genNode` makes of a node: no transaction, one, or a write behind the cold properties. -/
inductive Generated where
  | null
  | overrun
  | made (t : StoredTransaction)
  deriving DecidableEq, Repr

/-- The fields, but for the cold properties. -/
def assign (tr : StoredTransaction) (record : (f : TransactionField) → f.Value) : StoredTransaction :=
  { tr with
    mIssuer := record .mIssuer
    mPubKey := record .mPubKey
    mNonce := record .mNonce
    mCode := record .mCode
    mTimestamp := record .mTimestamp
    mErgPrice := record .mErgPrice
    mErgLimit := record .mErgLimit
    mExtData := record .mExtData
    mLockTime := record .mLockTime
    mSignature := record .mSignature }

/-- `memcpy` over the cold properties, which are one byte. -/
def copyCold (tr : StoredTransaction) : (ColdPropertiedBytes : Bytes) → Generated
  | [] => .made tr
  | [b] => .made { tr with ColdProperties := b }
  | _ => .overrun

/-- Values before they are read. -/
def blank : (f : TransactionField) → f.Value
  | .mNonce | .mTimestamp | .mLockTime => 0
  | .mErgPrice | .mErgLimit => 0
  | .ColdProperties | .mIssuer | .mPubKey | .mCode | .mExtData | .mSignature => []

/-- `decodeV1` and `extractV2`: all the fields, and nothing behind them. -/
def readFields (services : ChainServices Trie) (version : ℕ) (dec2 : Bytes) :
    Option ((f : TransactionField) → f.Value) :=
  (transactionCodec services version).decodeAll TransactionField.layout blank dec2

/-- The switch over the version, which has no default. -/
def decodeVersion (services : ChainServices Trie) (version : ℕ) (dec2 : Bytes) (tr : StoredTransaction) : Generated :=
  if TransactionVersion version then
    match readFields services version dec2 with
    | none => .null
    | some record => (tr.assign record).copyCold (record .ColdProperties)
  else .made tr

/-- What precedes the fields: the subtype and the version, with the fields and what is left behind them. -/
def decodeStart (rawData : Bytes) : Option (ℕ × ℕ × Bytes × Bytes) := do
  let (dec1, _) ← enterCons SEQUENCE rawData
  let (mSubType, dec1) ← decodeSmall dec1
  let (mOriginalVersion, dec1) ← decodeSmall dec1
  let (dec2, dec1) ← enterCons SEQUENCE dec1
  return (mSubType, mOriginalVersion, dec2, dec1)

/-- A transaction with the subtype and the version that were read. -/
def begun (fresh : StoredTransaction) (mSubType mOriginalVersion : ℕ) : StoredTransaction :=
  { fresh with
    mSubType := .ofNat mSubType
    mOriginalVersion := .ofNat mOriginalVersion
    mVersion := .ofNat mOriginalVersion }

/-- `genNode` on the raw data of a node, into a transaction as its constructor left it. -/
def genNode (services : ChainServices Trie) (fresh : StoredTransaction) (rawData : Bytes) : Generated :=
  match decodeStart rawData with
  | none => .null
  | some (mSubType, mOriginalVersion, dec2, dec1) =>
      match decodeVersion services mOriginalVersion dec2 (fresh.begun mSubType mOriginalVersion) with
      | .made tr => if dec1 = [] then .made tr else .null
      | failed => failed

end StoredTransaction
end Gridnet
