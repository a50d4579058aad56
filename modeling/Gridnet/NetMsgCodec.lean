import Gridnet.TokenCodec

/-! Datagrams as they travel: what `CNetMsg::getPackedData` writes, what `CNetMsg::instantiate` checks before it decodes
anything, and the limit of every field. -/

namespace Gridnet

open Ber ASN1_Tag

namespace CNetMsg

/-- With `MaxValue`, which the limits let pass. -/
inductive eEndpointType where
  | IPv4
  | IPv6
  | MAC
  | PeerID
  | TerminalID
  | WebSockConversation
  | UDTConversation
  | WebRTCSwarm
  | VM
  | SwarmMember
  | QUICConversation
  | MaxValue
  deriving DecidableEq, Repr

inductive eNetEntType where
  | unknown
  | block
  | transaction
  | verifiable
  | msg
  | chainProof
  | longestPath
  | sec
  | receiptBody
  | receiptID
  | ping
  | hello
  | bye
  | QRIntentResponse
  | DFS
  | VMStatus
  | ConnectionStatus
  | VMMetaData
  | Swarm
  | NetMsg
  | OperationStatus
  | sessionInfo
  | wrapper
  | blockBody
  | Kademlia
  | MaxValue
  deriving DecidableEq, Repr

inductive eNetReqType where
  | unknown
  | notify
  | request
  | process
  | route
  | MaxValue
  deriving DecidableEq, Repr

theorem eEndpointType.le_MaxValue (type : eEndpointType) : type.ctorIdx ≤ eEndpointType.MaxValue.ctorIdx := by
  cases type <;> decide

theorem eNetEntType.le_MaxValue (type : eNetEntType) : type.ctorIdx ≤ eNetEntType.MaxValue.ctorIdx := by
  cases type <;> decide

theorem eNetReqType.le_MaxValue (type : eNetReqType) : type.ctorIdx ≤ eNetReqType.MaxValue.ctorIdx := by
  cases type <;> decide

/-- What is packed of a datagram, in this order. -/
inductive Field where
  | mVersion
  | mFlags
  | mDestinationType
  | mDestination
  | mSourceType
  | mSource
  | mNextHop
  | mHops
  | mSourceSeq
  | mDestSeq
  | mTT
  | mExtraData
  | mEntityType
  | mRequestType
  | mData
  | mSig
  deriving DecidableEq, Repr

end CNetMsg

open CNetMsg in
structure CNetMsg where
  mVersion : UInt8 := 2
  mFlags : UInt8 := 0
  mDestinationType : eEndpointType := .IPv4
  mDestination : Bytes := []
  mSourceType : eEndpointType := .IPv4
  mSource : Bytes := []
  mNextHop : Bytes := []
  mHops : UInt64 := 0
  mSourceSeq : UInt64
  mDestSeq : UInt64 := 0
  mTT : Option CTransmissionToken := none
  mExtraData : Bytes := []
  mEntityType : eNetEntType := .msg
  mRequestType : eNetReqType := .notify
  mData : Bytes := []
  mSig : Bytes := []
  deriving DecidableEq

namespace CNetMsg

def NM_MAX_DESTINATION_SIZE : ℕ := 50
def NM_MAX_SOURCE_SIZE : ℕ := 50
def NM_MAX_NEXTHOP_SIZE : ℕ := 1024
def NM_MAX_HOPS : ℕ := 255
def NM_MAX_EXTRADATA_SIZE : ℕ := 4096
def NM_MAX_DATA_SIZE : ℕ := 100000000
def NM_MAX_SIG_SIZE : ℕ := 120

namespace Field

@[reducible] def Value : Field → Type
  | mVersion | mFlags => UInt8
  | mDestinationType | mSourceType => eEndpointType
  | mHops | mSourceSeq | mDestSeq => UInt64
  | mTT => Option CTransmissionToken
  | mEntityType => eNetEntType
  | mRequestType => eNetReqType
  | mDestination | mSource | mNextHop | mExtraData | mData | mSig => Bytes

def layout : List Field :=
  [mVersion, mFlags, mDestinationType, mDestination, mSourceType, mSource, mNextHop, mHops, mSourceSeq, mDestSeq, mTT,
    mExtraData, mEntityType, mRequestType, mData, mSig]

theorem mem_layout (f : Field) : f ∈ layout := by
  cases f <;> decide

theorem nodup_layout : layout.Nodup := by decide

def type_tag : Field → ASN1_Tag
  | mVersion | mDestinationType | mSourceType | mHops | mSourceSeq | mDestSeq | mEntityType | mRequestType => INTEGER
  | mFlags | mDestination | mSource | mNextHop | mTT | mExtraData | mData | mSig => OCTET_STRING

theorem shortTag (f : Field) : ShortTag f.type_tag UNIVERSAL := by
  cases f <;> decide

/-- Octets of which there may be so many. -/
def limited (most : ℕ) (contents : Bytes) : Option Bytes := if contents.length > most then none else some contents

/-- A number that may be so large. -/
def limitedNumber (most : ℕ) (contents : Bytes) : Option ℕ :=
  (smallInteger contents).bind fun temp => if temp > most then none else some temp

/-- Each field as it is decoded and checked. -/
def read : (f : Field) → Bytes → Option f.Value
  | mVersion, contents =>
      (limitedNumber 255 contents).bind fun version => if UInt8.ofNat version = 2 then some (.ofNat version) else none
  | mFlags, contents => if contents.length ≠ 1 then none else contents.head?
  | mDestinationType, contents | mSourceType, contents =>
      (limitedNumber eEndpointType.MaxValue.ctorIdx contents).map eEndpointType.ofNat
  | mDestination, contents => limited NM_MAX_DESTINATION_SIZE contents
  | mSource, contents => limited NM_MAX_SOURCE_SIZE contents
  | mNextHop, contents => limited NM_MAX_NEXTHOP_SIZE contents
  | mHops, contents => (limitedNumber NM_MAX_HOPS contents).map .ofNat
  | mSourceSeq, contents | mDestSeq, contents => (smallInteger contents).map .ofNat
  | mTT, contents =>
      if contents = [] then some none
      else (limited 10000 contents).bind fun ttBytes => (CTransmissionToken.instantiate ttBytes).map some
  | mExtraData, contents => limited NM_MAX_EXTRADATA_SIZE contents
  | mEntityType, contents => (limitedNumber eNetEntType.MaxValue.ctorIdx contents).map eNetEntType.ofNat
  | mRequestType, contents => (limitedNumber eNetReqType.MaxValue.ctorIdx contents).map eNetReqType.ofNat
  | mData, contents => limited NM_MAX_DATA_SIZE contents
  | mSig, contents => limited NM_MAX_SIG_SIZE contents

def write : (f : Field) → f.Value → Bytes
  | mVersion, n => integerContents n.toNat
  | mFlags, flags => [flags]
  | mDestinationType, type | mSourceType, type => integerContents type.ctorIdx
  | mEntityType, type => integerContents type.ctorIdx
  | mRequestType, type => integerContents type.ctorIdx
  | mHops, n | mSourceSeq, n | mDestSeq, n => integerContents n.toNat
  | mTT, token => (token.map (CTransmissionToken.pack · true)).getD []
  | mDestination, b | mSource, b | mNextHop, b | mExtraData, b | mData, b | mSig, b => b

/-- The limits that a field has to keep. -/
def Fits : (f : Field) → f.Value → Prop
  | mVersion, version => version = 2
  | mHops, hops => hops.toNat ≤ NM_MAX_HOPS
  | mSourceSeq, seq | mDestSeq, seq => seq.toNat < 2 ^ 32
  | mTT, token => ∀ tt ∈ token, tt.Packable ∧ (tt.pack true).length ≤ 10000
  | mDestination, b => b.length ≤ NM_MAX_DESTINATION_SIZE
  | mSource, b => b.length ≤ NM_MAX_SOURCE_SIZE
  | mNextHop, b => b.length ≤ NM_MAX_NEXTHOP_SIZE
  | mExtraData, b => b.length ≤ NM_MAX_EXTRADATA_SIZE
  | mData, b => b.length ≤ NM_MAX_DATA_SIZE
  | mSig, b => b.length ≤ NM_MAX_SIG_SIZE
  | mFlags, _ | mDestinationType, _ | mSourceType, _ | mEntityType, _ | mRequestType, _ => True

instance (f : Field) (v : f.Value) : Decidable (Fits f v) := by
  cases f <;> unfold Fits <;> infer_instance

end Field

def codec : FieldCodec Field Field.Value where
  type_tag := Field.type_tag
  read := Field.read
  write := Field.write
  shortTag := Field.shortTag

/-! ### Packing and reading -/

def record (m : CNetMsg) : (f : Field) → f.Value
  | .mVersion => m.mVersion
  | .mFlags => m.mFlags
  | .mDestinationType => m.mDestinationType
  | .mDestination => m.mDestination
  | .mSourceType => m.mSourceType
  | .mSource => m.mSource
  | .mNextHop => m.mNextHop
  | .mHops => m.mHops
  | .mSourceSeq => m.mSourceSeq
  | .mDestSeq => m.mDestSeq
  | .mTT => m.mTT
  | .mExtraData => m.mExtraData
  | .mEntityType => m.mEntityType
  | .mRequestType => m.mRequestType
  | .mData => m.mData
  | .mSig => m.mSig

/-- A datagram with every field assigned. -/
def assigned (record : (f : Field) → f.Value) : CNetMsg where
  mVersion := record .mVersion
  mFlags := record .mFlags
  mDestinationType := record .mDestinationType
  mDestination := record .mDestination
  mSourceType := record .mSourceType
  mSource := record .mSource
  mNextHop := record .mNextHop
  mHops := record .mHops
  mSourceSeq := record .mSourceSeq
  mDestSeq := record .mDestSeq
  mTT := record .mTT
  mExtraData := record .mExtraData
  mEntityType := record .mEntityType
  mRequestType := record .mRequestType
  mData := record .mData
  mSig := record .mSig

def getPackedData (m : CNetMsg) : Bytes := cons SEQUENCE UNIVERSAL (codec.encode Field.layout m.record)

/-- The loop over the octets of a long length. -/
def contentLength : (contentLength : ℕ) → Bytes → Option ℕ
  | length, [] => some length
  | length, b :: bytes =>
      if length > (2 ^ 64 - 1) >>> 8 then none else contentLength (length <<< 8 ||| b.toNat) bytes

/-- The octets of the length and the length they declare; an indefinite length declares nothing. -/
def declaredLength (packedData : Bytes) : Option (ℕ × ℕ) := do
  let b ← packedData[1]?
  if b &&& 0x80 ≠ 0 then
    let lengthOctets := (b &&& 0x7F).toNat + 1
    if lengthOctets > 5 ∨ 1 + lengthOctets > packedData.length then none
    else return (lengthOctets, ← contentLength 0 ((packedData.drop 2).take (lengthOctets - 1)))
  else return (1, b.toNat)

def MAX_DATAGRAM_SIZE : ℕ := 1024 * 1024 * 1024

/-- What is checked before anything is decoded. -/
def preValidated (packedData : Bytes) : Bool :=
  decide (packedData.length ≥ 5) && packedData.head? == some 0x30 &&
    (declaredLength packedData).any fun (lengthOctets, contentLength) =>
      decide (contentLength ≤ MAX_DATAGRAM_SIZE) && decide (1 + lengthOctets + contentLength = packedData.length) &&
        decide (packedData.length ≤ NM_MAX_DATA_SIZE + 10000)

/-- `instantiate`; the fields are read into a new datagram, which has the next number of the source. -/
def instantiate (fresh : CNetMsg) (packedData : Bytes) : Option CNetMsg := do
  if preValidated packedData then
    let (dec, _) ← enterCons SEQUENCE packedData
    return assigned (← codec.decodeAll Field.layout fresh.record dec)
  else none

/-- Every field keeps its limits, and all of them together do. -/
def Deliverable (m : CNetMsg) : Prop :=
  (∀ f ∈ Field.layout, f.Fits (m.record f)) ∧ m.getPackedData.length ≤ NM_MAX_DATA_SIZE + 10000

instance : DecidablePred Deliverable := fun _ => inferInstanceAs (Decidable (_ ∧ _))

end CNetMsg

end Gridnet
