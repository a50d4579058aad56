import Gridnet.BerRecords
import Gridnet.BlockIdentity
import Gridnet.TransactionProcessing

/-! Receipts as `prepare` packs them and `genNode` reads them. They are packed in the version that they were read in,
but for the first, which is packed in the layout of the third and is then no longer read. -/

namespace Gridnet

open Ber ASN1_Tag

inductive eReceiptType where
  | transaction
  | verifiable
  deriving DecidableEq, Repr

/-- What is packed of a receipt. -/
structure StoredReceipt where
  mOriginalVersion : UInt64 := 0
  mVersion : UInt64 := 3
  mReceiptType : eReceiptType := .transaction
  mGUID : Bytes := []
  mReceiptID : Bytes := []
  mBlockHeight : UInt64 := 0
  mResult : eTransactionValidationResult := .invalid
  mERGUsed : BigInt := 0
  mERGPrice : BigInt := 0
  mSacrificedValue : BigInt := 0
  mLog : List Bytes := []
  deriving DecidableEq, Repr

namespace StoredReceipt

variable {Trie : Type} (services : ChainServices Trie)

/-! ### Packing -/

def targetVersion (r : StoredReceipt) : UInt64 := if r.mOriginalVersion ≠ 0 then r.mOriginalVersion else r.mVersion

/-- The price is a `size_t` in version 2. -/
def packedPrice (r : StoredReceipt) : Bytes :=
  if r.targetVersion = 2 then encodeSmall (UInt64.ofNat r.mERGPrice.toNat).toNat
  else encodeOctets (services.BigIntToBytes r.mERGPrice)

/-- The fields in front of the price. -/
def packedStart (r : StoredReceipt) (rest : Bytes) : Bytes :=
  encodeSmall r.mReceiptType.ctorIdx ++ (encodeOctets r.mGUID ++ (encodeOctets r.mReceiptID ++
    (encodeSmall r.mBlockHeight.toNat ++ (encodeSmall r.mResult.ctorIdx ++
      (encodeOctets (services.BigIntToBytes r.mERGUsed) ++ rest)))))

/-- The fields behind the price. -/
def packedEnd (r : StoredReceipt) : Bytes :=
  encodeOctets (services.BigIntToBytes r.mSacrificedValue) ++ cons SEQUENCE UNIVERSAL (r.mLog.flatMap encodeOctets)

def packedBody (r : StoredReceipt) : Bytes :=
  r.packedStart services (r.packedPrice services ++ r.packedEnd services)

/-- The raw data that `prepare` sets. -/
def prepare (r : StoredReceipt) : Bytes := nodeData 3 r.targetVersion.toNat (r.packedBody services)

/-! ### Reading -/

/-- How `genNode` ends without a receipt: in a failed assertion, to which exceptions lead, too; and where the source
keeps a number that its enumeration does not name. -/
inductive Fault where
  | assertion
  | unnamed (number : ℕ)
  deriving DecidableEq, Repr

/-- A step of a decoder, which throws on `none`. -/
def decoded {α : Type} : Option α → Except Fault α
  | none => .error .assertion
  | some value => .ok value

/-- `static_cast` to an enumeration with this last name. -/
def cast {T : Type} (ofNat : ℕ → T) (last temp : ℕ) : Except Fault T :=
  if temp ≤ last then .ok (ofNat temp) else .error (.unnamed temp)

def castType : ℕ → Except Fault eReceiptType := cast .ofNat eReceiptType.verifiable.ctorIdx

def castResult : ℕ → Except Fault eTransactionValidationResult :=
  cast .ofNat eTransactionValidationResult.invalidBytecode.ctorIdx

/-- The fields that all versions start with. -/
def decodeStart (receipt : StoredReceipt) (dec2 : Bytes) : Except Fault (StoredReceipt × Bytes) := do
  let (temp, dec2) ← decoded (decodeSmall dec2)
  let mReceiptType ← castType temp
  let (mGUID, dec2) ← decoded (decodeOctets dec2)
  let (mReceiptID, dec2) ← decoded (decodeOctets dec2)
  let (mBlockHeight, dec2) ← decoded (decodeSmall dec2)
  let (temp, dec2) ← decoded (decodeSmall dec2)
  let mResult ← castResult temp
  let (tempBytes, dec2) ← decoded (decodeOctets dec2)
  let mERGUsed ← decoded (services.BytesToBigInt tempBytes)
  return (
    { receipt with mReceiptType, mGUID, mReceiptID, mBlockHeight := .ofNat mBlockHeight, mResult, mERGUsed }, dec2)

/-- A number in octets. -/
def decodeBigInt (dec2 : Bytes) : Option (BigInt × Bytes) := do
  let (tempBytes, dec2) ← decodeOctets dec2
  return (← services.BytesToBigInt tempBytes, dec2)

/-- A number that became a `BigInt` later. -/
def decodeNumber (dec2 : Bytes) : Option (BigInt × Bytes) :=
  (decodeSmall dec2).map fun (temp, dec2) => (.ofNat 256 temp, dec2)

/-- The loop over the entries of the log. -/
def decodeLog : (turns : ℕ) → Bytes → Option (List Bytes)
  | 0, _ => some []
  | turns + 1, dec3 =>
      if dec3 = [] then some []
      else do
        let (logEntryV, dec3) ← decodeOctets dec3
        return logEntryV :: (← decodeLog turns dec3)

/-- The log, and that nothing is left behind the fields; what is left behind the log is not looked at. -/
def decodeEnd (checked : Bool) (receipt : StoredReceipt) (dec dec2 : Bytes) : Option StoredReceipt := do
  let (obj, _) ← getNextObject dec2
  if checked ∧ obj.type_tag ≠ SEQUENCE then none
  else
    let mLog ← decodeLog (obj.value.length + 1) obj.value
    if checked ∧ dec ≠ [] then none else return { receipt with mLog }

/-- A version of the decoder: how the price is read, whether there is a sacrificed value, and whether its assertions are
compiled. -/
def decodeReceipt (price : Bytes → Option (BigInt × Bytes)) (sacrifices checked : Bool) (dec : Bytes)
    (receipt : StoredReceipt) : Except Fault StoredReceipt := do
  let (obj, dec) ← decoded (getNextObject dec)
  if checked ∧ obj.type_tag ≠ SEQUENCE then .error .assertion
  else
    let (receipt, dec2) ← decodeStart services receipt obj.value
    let (mERGPrice, dec2) ← decoded (price dec2)
    let receipt := { receipt with mERGPrice }
    if sacrifices then
      let (mSacrificedValue, dec2) ← decoded (decodeBigInt services dec2)
      decoded (decodeEnd checked { receipt with mSacrificedValue } dec dec2)
    else decoded (decodeEnd checked receipt dec dec2)

def decodeReceiptV1 : Bytes → StoredReceipt → Except Fault StoredReceipt :=
  decodeReceipt services decodeNumber false true

/-- Its assertions are plain ones. -/
def decodeReceiptV2 (NDEBUG : Bool) : Bytes → StoredReceipt → Except Fault StoredReceipt :=
  decodeReceipt services decodeNumber true !NDEBUG

def decodeReceiptV3 : Bytes → StoredReceipt → Except Fault StoredReceipt :=
  decodeReceipt services (decodeBigInt services) true true

/-- The switch over the version, into a new receipt. -/
def decodeVersion (NDEBUG : Bool) (versionReceived : ℕ) (dec : Bytes) : Except Fault StoredReceipt :=
  let receipt : StoredReceipt := { mOriginalVersion := .ofNat versionReceived }
  match versionReceived with
  | 1 => decodeReceiptV1 services dec receipt
  | 2 => decodeReceiptV2 services NDEBUG dec receipt
  | 3 => decodeReceiptV3 services dec receipt
  | _ => .error .assertion

/-- `genNode` on the raw data of a node. -/
def genNode (NDEBUG : Bool) (rawData : Bytes) : Except Fault StoredReceipt := do
  let (dec, _) ← decoded (enterCons SEQUENCE rawData)
  let (subT, dec) ← decoded (decodeSmall dec)
  let (versionReceived, dec) ← decoded (decodeSmall dec)
  if subT = 3 then decodeVersion services NDEBUG versionReceived dec else .error .assertion

/-! ### Receipts that were packed -/

variable {services}

/-- What is read back. -/
structure Readable (services : ChainServices Trie) (r : StoredReceipt) : Prop where
  length : (numbered 3 r.targetVersion.toNat (r.packedBody services)).length < 2 ^ 32
  version : r.targetVersion = 2 ∨ r.targetVersion = 3
  height : r.mBlockHeight.toNat < 2 ^ 32
  price : r.targetVersion = 2 → r.mERGPrice.toNat % 2 ^ 64 < 2 ^ 32

/-- What it is read back as: of a version that is kept, in the latest layout, with the price that was written. -/
def unpacked (r : StoredReceipt) : StoredReceipt :=
  { r with
    mOriginalVersion := r.targetVersion
    mVersion := 3
    mERGPrice := if r.targetVersion = 2 then .ofNat 256 (UInt64.ofNat r.mERGPrice.toNat).toNat else r.mERGPrice }

theorem castType_ctorIdx (type : eReceiptType) : castType type.ctorIdx = .ok type := by
  cases type <;> rfl

theorem castResult_ctorIdx (result : eTransactionValidationResult) : castResult result.ctorIdx = .ok result := by
  cases result <;> rfl

theorem ctorIdx_lt (type : eReceiptType) : type.ctorIdx < 2 ^ 32 := by
  cases type <;> decide

theorem result_lt (result : eTransactionValidationResult) : result.ctorIdx < 2 ^ 32 := by
  cases result <;> decide

theorem length_le_encodeOctets (contents : Bytes) : contents.length ≤ (encodeOctets contents).length :=
  length_le_addObject _ _ _

theorem encodeOctets_ne_nil (contents : Bytes) : encodeOctets contents ≠ [] :=
  List.cons_ne_nil 0x04 (encodeLength contents.length ++ contents)

theorem decodeStart_packed (hround : ∀ n, services.BytesToBigInt (services.BigIntToBytes n) = some n)
    (r receipt : StoredReceipt) (rest : Bytes) (hlen : (r.packedStart services rest).length < 2 ^ 32) :
    decodeStart services receipt (r.packedStart services rest) =
      if r.mBlockHeight.toNat < 2 ^ 32 then
        .ok ({ receipt with
          mReceiptType := r.mReceiptType
          mGUID := r.mGUID
          mReceiptID := r.mReceiptID
          mBlockHeight := r.mBlockHeight
          mResult := r.mResult
          mERGUsed := r.mERGUsed }, rest)
      else .error .assertion := by
  have hGUID := length_le_encodeOctets r.mGUID
  have hID := length_le_encodeOctets r.mReceiptID
  have hused := length_le_encodeOctets (services.BigIntToBytes r.mERGUsed)
  simp only [packedStart, List.length_append] at hlen
  rw [decodeStart, packedStart, decodeSmall_encodeSmall (ctorIdx_lt _)]
  simp only [decoded, castType_ctorIdx, bind, Except.bind]
  rw [decodeOctets_encodeOctets (by omega)]
  dsimp only
  rw [decodeOctets_encodeOctets (by omega)]
  dsimp only
  rw [decodeSmall_encodeSmall_eq r.mBlockHeight.toNat_lt]
  split_ifs with hheight
  · dsimp only
    rw [decodeSmall_encodeSmall (result_lt _)]
    simp only [castResult_ctorIdx]
    rw [decodeOctets_encodeOctets (by omega)]
    simp only [hround, UInt64.ofNat_toNat]
    rfl
  · rfl

theorem length_le_packedLog (log : List Bytes) : log.length ≤ (log.flatMap encodeOctets).length := by
  induction log with
  | nil => exact le_rfl
  | cons entry log ih =>
      have hpos := List.length_pos_iff.mpr (encodeOctets_ne_nil entry)
      rw [List.flatMap_cons, List.length_append, List.length_cons]
      omega

theorem decodeLog_packed {log : List Bytes} (hlen : (log.flatMap encodeOctets).length < 2 ^ 32) {turns : ℕ}
    (hturns : log.length < turns) : decodeLog turns (log.flatMap encodeOctets) = some log := by
  induction log generalizing turns with
  | nil =>
      cases turns with
      | zero => rfl
      | succ turns => rfl
  | cons entry log ih =>
      cases turns with
      | zero => exact absurd hturns (Nat.not_lt_zero _)
      | succ turns =>
          have hentry := length_le_encodeOctets entry
          rw [List.flatMap_cons, List.length_append] at hlen
          have hne : encodeOctets entry ++ log.flatMap encodeOctets ≠ [] := fun hnil =>
            encodeOctets_ne_nil entry (List.append_eq_nil_iff.mp hnil).1
          rw [List.flatMap_cons, decodeLog, if_neg hne, decodeOctets_encodeOctets (by omega)]
          simp only [Option.bind_eq_bind, Option.bind_some, ih (by omega) (Nat.lt_of_succ_lt_succ hturns)]
          rfl

theorem decodeEnd_packed (checked : Bool) (receipt : StoredReceipt) {log : List Bytes}
    (hlen : (log.flatMap encodeOctets).length < 2 ^ 32) :
    decodeEnd checked receipt [] (cons SEQUENCE UNIVERSAL (log.flatMap encodeOctets)) =
      some { receipt with mLog := log } := by
  have hobject : getNextObject (cons SEQUENCE UNIVERSAL (log.flatMap encodeOctets)) =
      some (⟨SEQUENCE, UNIVERSAL ||| CONSTRUCTED, log.flatMap encodeOctets⟩, []) :=
    shortTag_sequence.getNextObject_addObject_last hlen
  rw [decodeEnd, hobject]
  simp only [Option.bind_eq_bind, Option.bind_some, ne_eq, not_true_eq_false, and_false, if_false,
    decodeLog_packed hlen (Nat.lt_succ_of_le (length_le_packedLog log))]
  rfl

/-- A number is not an octet string. -/
theorem decodeNumber_encodeOctets {contents : Bytes} (hlen : contents.length < 2 ^ 32) (rest : Bytes) :
    decodeNumber (encodeOctets contents ++ rest) = none := by
  rw [decodeNumber, decodeSmall, encodeOctets, shortTag_octets.getNextObject_addObject hlen]
  rfl

theorem decodeBigInt_encodeOctets (hround : ∀ n, services.BytesToBigInt (services.BigIntToBytes n) = some n)
    {n : BigInt} (hlen : (services.BigIntToBytes n).length < 2 ^ 32) (rest : Bytes) :
    decodeBigInt services (encodeOctets (services.BigIntToBytes n) ++ rest) = some (n, rest) := by
  rw [decodeBigInt, decodeOctets_encodeOctets hlen]
  simp only [Option.bind_eq_bind, Option.bind_some, hround]
  rfl

theorem decodeNumber_encodeSmall (n : UInt64) (rest : Bytes) :
    decodeNumber (encodeSmall n.toNat ++ rest) =
      if n.toNat < 2 ^ 32 then some (.ofNat 256 n.toNat, rest) else none := by
  rw [decodeNumber, decodeSmall_encodeSmall_eq n.toNat_lt]
  split_ifs <;> rfl

section Packed

variable {r : StoredReceipt} (hround : ∀ n, services.BytesToBigInt (services.BigIntToBytes n) = some n)
  (hlen : (r.packedBody services).length < 2 ^ 32)
include hround hlen

/-- A decoder first reads everything in front of the price. -/
theorem decodeReceipt_start (price : Bytes → Option (BigInt × Bytes)) (sacrifices checked : Bool)
    (receipt : StoredReceipt) :
    decodeReceipt services price sacrifices checked (cons SEQUENCE UNIVERSAL (r.packedBody services)) receipt =
      if r.mBlockHeight.toNat < 2 ^ 32 then do
        let (mERGPrice, dec2) ← decoded (price (r.packedPrice services ++ r.packedEnd services))
        let receipt := { r with
          mOriginalVersion := receipt.mOriginalVersion
          mVersion := receipt.mVersion
          mERGPrice
          mSacrificedValue := receipt.mSacrificedValue
          mLog := receipt.mLog }
        if sacrifices then
          let (mSacrificedValue, dec2) ← decoded (decodeBigInt services dec2)
          decoded (decodeEnd checked { receipt with mSacrificedValue } [] dec2)
        else decoded (decodeEnd checked receipt [] dec2)
      else .error .assertion := by
  have hobject : getNextObject (cons SEQUENCE UNIVERSAL (r.packedBody services)) =
      some (⟨SEQUENCE, UNIVERSAL ||| CONSTRUCTED, r.packedBody services⟩, []) :=
    shortTag_sequence.getNextObject_addObject_last hlen
  have hstart := decodeStart_packed hround r receipt (r.packedPrice services ++ r.packedEnd services) hlen
  rw [decodeReceipt, hobject]
  simp only [decoded, bind, Except.bind, ne_eq, not_true_eq_false, and_false, if_false]
  rw [packedBody, hstart]
  split_ifs <;> rfl

/-- The layout of the second and the third version is read by a decoder that reads the price. -/
theorem decodeReceipt_packed {price : Bytes → Option (BigInt × Bytes)} (checked : Bool) (receipt : StoredReceipt)
    {mERGPrice : BigInt}
    (hprice : price (r.packedPrice services ++ r.packedEnd services) = some (mERGPrice, r.packedEnd services)) :
    decodeReceipt services price true checked (cons SEQUENCE UNIVERSAL (r.packedBody services)) receipt =
      if r.mBlockHeight.toNat < 2 ^ 32 then
        .ok { r with mOriginalVersion := receipt.mOriginalVersion, mVersion := receipt.mVersion, mERGPrice }
      else .error .assertion := by
  have hsacrificed := length_le_encodeOctets (services.BigIntToBytes r.mSacrificedValue)
  have hlog : (r.mLog.flatMap encodeOctets).length ≤ (cons SEQUENCE UNIVERSAL (r.mLog.flatMap encodeOctets)).length :=
    length_le_addObject _ _ _
  simp only [packedBody, packedStart, packedEnd, List.length_append] at hlen
  rw [decodeReceipt_start hround (by simpa only [packedBody, packedStart, packedEnd, List.length_append] using hlen),
    hprice]
  simp only [decoded, bind, Except.bind, if_true]
  rw [packedEnd, decodeBigInt_encodeOctets hround (by omega)]
  dsimp only
  rw [decodeEnd_packed _ _ (by omega)]

/-- A decoder that does not read the price reads no receipt. -/
theorem decodeReceipt_unread {price : Bytes → Option (BigInt × Bytes)} (sacrifices checked : Bool)
    (receipt : StoredReceipt) (hprice : price (r.packedPrice services ++ r.packedEnd services) = none) :
    decodeReceipt services price sacrifices checked (cons SEQUENCE UNIVERSAL (r.packedBody services)) receipt =
      .error .assertion := by
  rw [decodeReceipt_start hround hlen, hprice]
  split_ifs <;> rfl

end Packed

/-- The node of a receipt is left to the decoder of its version. -/
theorem genNode_prepare {r : StoredReceipt} (NDEBUG : Bool)
    (hlen : (numbered 3 r.targetVersion.toNat (r.packedBody services)).length < 2 ^ 32) :
    genNode services NDEBUG (r.prepare services) =
      if r.targetVersion.toNat < 2 ^ 32 then
        decodeVersion services NDEBUG r.targetVersion.toNat (cons SEQUENCE UNIVERSAL (r.packedBody services))
      else .error .assertion := by
  rw [genNode, prepare, enterCons_nodeData hlen]
  simp only [decoded, bind, Except.bind, numbered]
  rw [decodeSmall_encodeSmall (by decide)]
  dsimp only
  rw [decodeSmall_encodeSmall_eq r.targetVersion.toNat_lt]
  by_cases hversion : r.targetVersion.toNat < 2 ^ 32
  · rw [if_pos hversion, if_pos hversion]
    rfl
  · rw [if_neg hversion, if_neg hversion]

theorem length_packedPrice (services : ChainServices Trie) (r : StoredReceipt) :
    (r.packedPrice services).length ≤ (r.packedBody services).length := by
  simp only [packedBody, packedStart, List.length_append]
  omega

section Versions

variable {r : StoredReceipt} (hround : ∀ n, services.BytesToBigInt (services.BigIntToBytes n) = some n)
  (hlen : (r.packedBody services).length < 2 ^ 32)

include hround hlen

theorem decodeVersion_second (htwo : r.targetVersion = 2) (NDEBUG : Bool) :
    decodeVersion services NDEBUG r.targetVersion.toNat (cons SEQUENCE UNIVERSAL (r.packedBody services)) =
      if r.mBlockHeight.toNat < 2 ^ 32 ∧ r.mERGPrice.toNat % 2 ^ 64 < 2 ^ 32 then .ok r.unpacked
      else .error .assertion := by
  have hprice : decodeNumber (r.packedPrice services ++ r.packedEnd services) =
      if (UInt64.ofNat r.mERGPrice.toNat).toNat < 2 ^ 32 then
        some (.ofNat 256 (UInt64.ofNat r.mERGPrice.toNat).toNat, r.packedEnd services) else none := by
    rw [packedPrice, if_pos htwo, decodeNumber_encodeSmall]
  rw [htwo]
  change decodeReceipt services decodeNumber true (!NDEBUG) _ _ = _
  by_cases hsmall : r.mERGPrice.toNat % 2 ^ 64 < 2 ^ 32
  · rw [UInt64.toNat_ofNat', if_pos hsmall] at hprice
    rw [decodeReceipt_packed hround hlen _ _ hprice, unpacked, htwo, if_pos rfl, UInt64.toNat_ofNat']
    simp only [hsmall, and_true]
    rfl
  · rw [UInt64.toNat_ofNat', if_neg hsmall] at hprice
    rw [decodeReceipt_unread hround hlen _ _ _ hprice, if_neg fun hboth => hsmall hboth.2]

theorem decodeVersion_third (hthree : r.targetVersion = 3) (NDEBUG : Bool) :
    decodeVersion services NDEBUG r.targetVersion.toNat (cons SEQUENCE UNIVERSAL (r.packedBody services)) =
      if r.mBlockHeight.toNat < 2 ^ 32 then .ok r.unpacked else .error .assertion := by
  have hoctets := length_le_encodeOctets (services.BigIntToBytes r.mERGPrice)
  have hpacked := (length_packedPrice services r).trans_lt hlen
  have hprice : decodeBigInt services (r.packedPrice services ++ r.packedEnd services) =
      some (r.mERGPrice, r.packedEnd services) := by
    rw [packedPrice, hthree, if_neg (by decide)] at hpacked ⊢
    exact decodeBigInt_encodeOctets hround (by omega) _
  rw [hthree]
  change decodeReceipt services (decodeBigInt services) true true _ _ = _
  have hne : (3 : UInt64) ≠ 2 := by decide
  rw [decodeReceipt_packed hround hlen _ _ hprice, unpacked, hthree, if_neg hne]
  rfl

/-- The first version is packed in a layout that its decoder does not read, and later ones have no decoder. -/
theorem decodeVersion_other (htwo : r.targetVersion ≠ 2) (hthree : r.targetVersion ≠ 3) (NDEBUG : Bool) :
    decodeVersion services NDEBUG r.targetVersion.toNat (cons SEQUENCE UNIVERSAL (r.packedBody services)) =
      .error .assertion := by
  have hoctets := length_le_encodeOctets (services.BigIntToBytes r.mERGPrice)
  have hpacked := (length_packedPrice services r).trans_lt hlen
  have hprice : decodeNumber (r.packedPrice services ++ r.packedEnd services) = none := by
    rw [packedPrice, if_neg htwo] at hpacked ⊢
    exact decodeNumber_encodeOctets (by omega) _
  by_cases hone : r.targetVersion = 1
  · rw [hone]
    exact decodeReceipt_unread hround hlen _ _ _ hprice
  · have hnumber : ∀ n : UInt64, r.targetVersion ≠ n → r.targetVersion.toNat ≠ n.toNat := fun n hne heq =>
      hne (UInt64.toNat_inj.mp heq)
    have hone := hnumber 1 hone
    have htwo := hnumber 2 htwo
    have hthree := hnumber 3 hthree
    rw [decodeVersion]
    · exact hone
    · exact htwo
    · exact hthree

end Versions

/-- A receipt that is packed is read as it should be, or not at all. -/
theorem genNode_packed (hround : ∀ n, services.BytesToBigInt (services.BigIntToBytes n) = some n) {r : StoredReceipt}
    (hsize : (r.prepare services).length < 2 ^ 64) (NDEBUG : Bool) :
    (r.Readable services ∧ genNode services NDEBUG (r.prepare services) = .ok r.unpacked) ∨
      ¬r.Readable services ∧ genNode services NDEBUG (r.prepare services) = .error .assertion := by
  by_cases hnode : (numbered 3 r.targetVersion.toNat (r.packedBody services)).length < 2 ^ 32
  · have hlen := (length_le_numbered 3 r.targetVersion.toNat (r.packedBody services)).trans_lt hnode
    rw [genNode_prepare NDEBUG hnode]
    by_cases htwo : r.targetVersion = 2
    · rw [decodeVersion_second hround hlen htwo, htwo, if_pos (by decide)]
      by_cases hsmall : r.mBlockHeight.toNat < 2 ^ 32 ∧ r.mERGPrice.toNat % 2 ^ 64 < 2 ^ 32
      · exact .inl ⟨⟨hnode, .inl htwo, hsmall.1, fun _ => hsmall.2⟩, if_pos hsmall⟩
      · exact .inr ⟨fun hread => hsmall ⟨hread.height, hread.price htwo⟩, if_neg hsmall⟩
    · by_cases hthree : r.targetVersion = 3
      · rw [decodeVersion_third hround hlen hthree, hthree, if_pos (by decide)]
        by_cases hsmall : r.mBlockHeight.toNat < 2 ^ 32
        · exact .inl ⟨⟨hnode, .inr hthree, hsmall, fun h => absurd h htwo⟩, if_pos hsmall⟩
        · exact .inr ⟨fun hread => hsmall hread.height, if_neg hsmall⟩
      · refine .inr ⟨fun hread => hread.version.elim htwo hthree, ?_⟩
        rw [decodeVersion_other hround hlen htwo hthree]
        split_ifs <;> rfl
  · refine .inr ⟨fun hread => hnode hread.length, ?_⟩
    cases henter : enterCons SEQUENCE (r.prepare services) with
    | none =>
        rw [genNode, henter]
        rfl
    | some entered => exact absurd (length_of_enterCons_nodeData hsize henter) hnode

theorem targetVersion_unpacked (r : StoredReceipt) (hversion : r.targetVersion ≠ 0) :
    r.unpacked.targetVersion = r.targetVersion := by
  rw [targetVersion, unpacked, if_pos hversion]

/-- The price that was written is written again. -/
theorem prepare_unpacked {r : StoredReceipt} (hversion : r.targetVersion ≠ 0) :
    r.unpacked.prepare services = r.prepare services := by
  have hprice : r.unpacked.packedPrice services = r.packedPrice services := by
    rw [packedPrice, packedPrice, targetVersion_unpacked r hversion]
    by_cases htwo : r.targetVersion = 2
    · rw [if_pos htwo, if_pos htwo, unpacked, if_pos htwo]
      have hnarrow := (UInt64.ofNat r.mERGPrice.toNat).toNat_lt
      rw [BitVec.toNat_ofNat, Nat.mod_eq_of_lt (hnarrow.trans (by decide)), UInt64.ofNat_toNat]
    · rw [if_neg htwo, if_neg htwo, unpacked, if_neg htwo]
  rw [prepare, prepare, targetVersion_unpacked r hversion, packedBody, packedBody, hprice]
  rfl

/-- Receipts that are packed are read back exactly when they are readable, as what is packed into the same bytes again.
A receipt that was read in the first version is packed into what is no longer read, and never into what it was read
from. -/
theorem receipt_roundTrips_iff (services : ChainServices Trie)
    (hround : ∀ n, services.BytesToBigInt (services.BigIntToBytes n) = some n) (NDEBUG : Bool) :
    (∀ r : StoredReceipt, (r.prepare services).length < 2 ^ 64 →
      ((∃ r', genNode services NDEBUG (r.prepare services) = .ok r') ↔ r.Readable services) ∧
      ∀ r', genNode services NDEBUG (r.prepare services) = .ok r' →
        r' = r.unpacked ∧ r'.prepare services = r.prepare services) ∧
    ∀ (rawData : Bytes) (r : StoredReceipt), genNode services NDEBUG rawData = .ok r → r.mOriginalVersion = 1 →
      (r.prepare services).length < 2 ^ 64 →
        genNode services NDEBUG (r.prepare services) = .error .assertion ∧ r.prepare services ≠ rawData := by
  refine ⟨fun r hsize => ?_, fun rawData r hread hfirst hsize => ?_⟩
  · rcases genNode_packed hround hsize NDEBUG with ⟨hreadable, hread⟩ | ⟨hnot, hread⟩
    · refine ⟨iff_of_true ⟨_, hread⟩ hreadable, fun r' hr' => ?_⟩
      have hversion : r.targetVersion ≠ 0 := by
        rcases hreadable.version with htwo | hthree
        · rw [htwo]
          decide
        · rw [hthree]
          decide
      rw [hread] at hr'
      cases hr'
      exact ⟨rfl, prepare_unpacked hversion⟩
    · refine ⟨iff_of_false (fun hsome => ?_) hnot, fun r' hr' => ?_⟩
      · obtain ⟨r', hr'⟩ := hsome
        rw [hread] at hr'
        cases hr'
      · rw [hread] at hr'
        cases hr'
  · have htarget : r.targetVersion = 1 := by
      rw [targetVersion, hfirst]
      rfl
    rcases genNode_packed hround hsize NDEBUG with ⟨hreadable, -⟩ | ⟨-, hnone⟩
    · rcases hreadable.version with htwo | hthree
      · cases htarget.symm.trans htwo
      · cases htarget.symm.trans hthree
    · refine ⟨hnone, fun hsame => ?_⟩
      rw [hsame, hread] at hnone
      cases hnone

open CBlock

/-- A node of the first version, whose price is a number and which has no sacrificed value. -/
def firstNode : Bytes :=
  nodeData 3 1 (encodeSmall 0 ++ (encodeOctets [1] ++ (encodeOctets [2] ++ (encodeSmall 9 ++ (encodeSmall 0 ++
    (encodeOctets [7] ++ (encodeSmall 5 ++ cons SEQUENCE UNIVERSAL (encodeOctets [76, 79, 71]))))))))

/-- What is read of it. -/
def firstReceipt : StoredReceipt where
  mOriginalVersion := 1
  mGUID := [1]
  mReceiptID := [2]
  mBlockHeight := 9
  mResult := .valid
  mERGUsed := 7
  mERGPrice := 5
  mLog := [[76, 79, 71]]

/-- It is read once, and what is packed of it is not. -/
theorem firstReceipt_lost : genNode emptyNode false firstNode = .ok firstReceipt ∧
    genNode emptyNode false (firstReceipt.prepare emptyNode) = .error .assertion ∧
      (∃ r', genNode emptyNode false (({ firstReceipt with mOriginalVersion := 3 } : StoredReceipt).prepare emptyNode) =
        .ok r') := by
  have hread : genNode emptyNode false firstNode = .ok firstReceipt := rfl
  have hround := receipt_roundTrips_iff emptyNode emptyNode_round false
  exact ⟨hread, (hround.2 _ _ hread rfl (by decide)).1, ((hround.1 _ (by decide)).1).mpr
    ⟨by decide, .inr rfl, by decide, fun h => absurd h (by decide)⟩⟩

end StoredReceipt

end Gridnet
