import Gridnet.BerRecords
import Gridnet.VerifiableModel

/-! Verifiables as nodes of a trie: `prepare` packs them, with or without their signature, into one buffer that
`getPackedData` and `getHash` use, and `genNode` reads them. -/

namespace Gridnet

open Ber ASN1_Tag

/-- What verifiables use of the tools and the crypto factory. The readers of numbers are `none` where they throw. -/
structure SealingTools where
  BigIntToBytes : BigInt → Bytes
  BytesToBigInt : Bytes → Option BigInt
  BigSIntToBytes : ℤ → Bytes
  BytesToBigSInt : Bytes → Option ℤ
  isDomainIDValid : Bytes → Bool
  BERVector : Bytes → Bytes
  getSHA2_256Vec : Bytes → Bytes
  getPubFromPriv : Bytes → Bytes
  signData : (data key : Bytes) → Bytes
  verifySignature : (signature data key : Bytes) → Bool

namespace eVerifiableType

/-- The places of the types in their enumeration. -/
def number : eVerifiableType → ℕ
  | minerReward => 0
  | GenesisRewards => 1
  | uncleBlock => 2
  | dataPropagation => 3
  | powerGeneration => 4
  | powerTransit => 5
  | proofOfFraud => 6

def ofNumber : ℕ → Option eVerifiableType
  | 0 => some minerReward
  | 1 => some GenesisRewards
  | 2 => some uncleBlock
  | 3 => some dataPropagation
  | 4 => some powerGeneration
  | 5 => some powerTransit
  | 6 => some proofOfFraud
  | _ => none

@[simp] theorem ofNumber_number (t : eVerifiableType) : ofNumber t.number = some t := by
  cases t <;> rfl

theorem number_lt (t : eVerifiableType) : t.number < 2 ^ 32 := by
  cases t <;> decide

end eVerifiableType

/-- A verifiable with its buffer, and whether that and the hash are up to date. -/
structure VerifiableNode extends CVerifiable where
  mMainRAWData : Bytes := []
  mIsPrepared : Bool := false
  deriving DecidableEq, Repr

section Packing

variable (S : SealingTools)

def packedChange (change : BalanceChange) : Bytes :=
  cons SEQUENCE UNIVERSAL
    (encodeOctets change.address ++ encodeOctets (S.BigSIntToBytes change.pendingPreTaxBalanceChange))

/-- What `prepare` writes behind the version. -/
def CVerifiable.packedBody (v : CVerifiable) (includeSig : Bool) : Bytes :=
  encodeOctets v.mGUID ++ (encodeOctets (S.BigIntToBytes v.mErgLimit) ++ (encodeSmall v.mErgPrice.toNat ++
    (encodeSmall v.mVerifiableType.number ++ (encodeOctets v.mProof ++ (encodeOctets v.mPubKey ++
      ((if includeSig then encodeOctets v.mSignature else encodeNull) ++
        cons SEQUENCE UNIVERSAL (v.mAffectedDomains.flatMap (packedChange S))))))))

def CVerifiable.packedRawData (v : CVerifiable) (includeSig : Bool) : Bytes :=
  nodeData 4 v.mVersion.toNat (v.packedBody S includeSig)

namespace VerifiableNode

/-- `prepare`, which does not look at `store`. The node counts as up to date with the signature left out, too. -/
def prepare (v : VerifiableNode) (includeSig : Bool) : VerifiableNode :=
  { v with mMainRAWData := v.toCVerifiable.packedRawData S includeSig, mIsPrepared := true }

/-- `genID`, with the vector that is drawn where there is no proof. -/
def genID (v : VerifiableNode) (random : Bytes) : VerifiableNode :=
  { v with mGUID := if v.mProof = [] then random else S.getSHA2_256Vec v.mProof }

/-- `getPackedData`, with what the node packs around the buffer. -/
def getPackedData (packNode : Bytes → Bytes) (v : VerifiableNode) (random : Bytes) : Bytes × VerifiableNode :=
  let v := if v.mGUID.length ≠ 32 then v.genID S random else v
  let v := v.prepare S true
  (packNode v.mMainRAWData, v)

/-- `verifySignature`, and what it leaves of the verifiable. -/
def verifySignature (v : VerifiableNode) (publicKey : Bytes) : Bool × VerifiableNode :=
  if v.mSignature = [] then (false, v)
  else
    let v := if v.mPubKey.length ≠ 32 then { v with mPubKey := publicKey } else v
    if v.mPubKey.length ≠ 32 then (false, v)
    else
      let v := v.prepare S false
      (S.verifySignature v.mSignature v.mMainRAWData v.mPubKey, v)

/-- `sign`, within its assertion. -/
def sign (v : VerifiableNode) (privKey : Bytes) : Option VerifiableNode :=
  if privKey.length = 32 then
    let v := { v with mPubKey := S.getPubFromPriv privKey }
    let v := v.prepare S false
    let v := { v with mSignature := S.signData v.mMainRAWData (S.BERVector privKey), mIsPrepared := false }
    some (v.prepare S true)
  else none

end VerifiableNode

/-- `getHash` of the nodes of a trie: a hash of the buffer, which is made first, if it is not up to date. -/
structure NodeHash where
  getHash : VerifiableNode → Bytes
  hashData : Bytes → Bytes
  prepared : ∀ v, v.mIsPrepared = true → getHash v = hashData v.mMainRAWData
  unprepared : ∀ v, v.mIsPrepared = false → getHash v = hashData (v.prepare S true).mMainRAWData

def NodeHash.ofData (hashData : Bytes → Bytes) : NodeHash S where
  getHash v := hashData (if v.mIsPrepared then v else v.prepare S true).mMainRAWData
  hashData
  prepared v hprepared := by rw [if_pos hprepared]
  unprepared v hunprepared := by rw [hunprepared, if_neg Bool.false_ne_true]

/-! ### Reading -/

/-- The address of a domain object, which has at least 34 bytes. -/
def expandAddress (address : Bytes) : Bytes :=
  if address.length < 34 then address ++ List.replicate (34 - address.length) 0 else address

namespace VerifiableNode

/-- `addBalanceChange`, within the assertion of the domain object. An ID that is not valid is passed over; nobody looks
at that when a node is read. -/
def addBalanceChange (changes : List BalanceChange) (change : BalanceChange) : Option (List BalanceChange) :=
  if S.isDomainIDValid change.address = false then some changes
  else
    let address := expandAddress change.address
    if address.length = 34 ∨ address.length = 33 then some (changes ++ [{ change with address }]) else none

/-- The loop over the affected domains. -/
def readDomains : (turns : ℕ) → List BalanceChange → Bytes → Option (List BalanceChange)
  | 0, changes, _ => some changes
  | turns + 1, changes, dec3 =>
      if dec3 = [] then some changes
      else do
        let (obj, dec3) ← getNextObject dec3
        if obj.type_tag ≠ SEQUENCE then none
        else
          let (domainID, dec4) ← decodeOctets obj.value
          let (temp, _) ← decodeOctets dec4
          let pendingBalanceChangeS ← S.BytesToBigSInt temp
          let changes ← addBalanceChange S changes ⟨domainID, pendingBalanceChangeS⟩
          readDomains turns changes dec3

/-- What is read of version 1; the type may be any number. -/
structure ReadVerifiable where
  mGUID : Bytes
  mErgLimit : BigInt
  mErgPrice : ℕ
  mVerifiableType : ℕ
  mProof : Bytes
  mPubKey : Bytes
  mSignature : Bytes
  mAffectedDomains : List BalanceChange

def readFields (dec2 : Bytes) : Option ReadVerifiable := do
  let (mGUID, dec2) ← decodeOctets dec2
  let (temp, dec2) ← decodeOctets dec2
  let mErgLimit ← S.BytesToBigInt temp
  let (mErgPrice, dec2) ← decodeSmall dec2
  let (mVerifiableType, dec2) ← decodeSmall dec2
  let (mProof, dec2) ← decodeOctets dec2
  let (mPubKey, dec2) ← decodeOctets dec2
  let (obj, dec2) ← getNextObject dec2
  let mSignature := if obj.type_tag = OCTET_STRING then obj.value else []
  let (obj, _) ← getNextObject dec2
  if obj.type_tag ≠ SEQUENCE then none
  else
    let mAffectedDomains ← readDomains S (obj.value.length + 1) [] obj.value
    return { mGUID, mErgLimit, mErgPrice, mVerifiableType, mProof, mPubKey, mSignature, mAffectedDomains }

/-- The version, and the fields where it is 1; of another version nothing is read. -/
def readVerifiable (rawData : Bytes) : Option (ℕ × Option ReadVerifiable) := do
  let (dec, _) ← enterCons SEQUENCE rawData
  let (subT, dec) ← decodeSmall dec
  let (mVersion, dec) ← decodeSmall dec
  if subT ≠ 4 then none
  else if mVersion = 1 then
    let (obj, dec) ← getNextObject dec
    if obj.type_tag ≠ SEQUENCE then none
    else
      let fields ← readFields S obj.value
      if dec = [] then some (mVersion, some fields) else none
  else some (mVersion, none)

/-- How `genNode` ends without a verifiable: in a failed assertion, to which exceptions lead, too; and where the source
keeps a type that its enumeration does not name. -/
inductive GenNodeFault where
  | assertion
  | unnamedType (number : ℕ)
  deriving DecidableEq, Repr

/-- `genNode` on the raw data of a node; the constructor draws an ID. -/
def genNode (random rawData : Bytes) : Except GenNodeFault VerifiableNode :=
  match readVerifiable S rawData with
  | none => .error .assertion
  | some (mVersion, none) => .ok { mVersion := .ofNat mVersion, mGUID := random, mMainRAWData := rawData }
  | some (mVersion, some fields) =>
      match eVerifiableType.ofNumber fields.mVerifiableType with
      | none => .error (.unnamedType fields.mVerifiableType)
      | some mVerifiableType => .ok
          { mVersion := .ofNat mVersion
            mGUID := fields.mGUID
            mErgLimit := fields.mErgLimit
            mErgPrice := .ofNat fields.mErgPrice
            mVerifiableType
            mProof := fields.mProof
            mPubKey := fields.mPubKey
            mSignature := fields.mSignature
            mAffectedDomains := fields.mAffectedDomains
            mMainRAWData := rawData }

end VerifiableNode

end Packing

end Gridnet
