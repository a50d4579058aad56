import Gridnet.FlowLedger
import Gridnet.SendParser
import Gridnet.TransactionSigning

/-! A single transaction: `preValidateTransaction`, which the memory pool trusts, and
`processTransaction`, which decides whether the script is run and for which domain. -/

namespace Gridnet

inductive eTransactionValidationResult where
  | valid
  | invalid
  | unknownIssuer
  | insufficientERG
  | ERGBidTooLow
  | pubNotMatch
  | noIDToken
  | noPublicKey
  | invalidSig
  | invalidBalance
  | incosistentData
  | validNoTrieEffect
  | invalidSacrifice
  | invalidNonce
  | forkedOut
  | received
  | invalidBytecode
  deriving DecidableEq, Repr

/-- The fields of a receipt that take part in consensus, and its hot mark. -/
structure CReceipt where
  mGUID : Bytes := []
  mVerifiableID : Bytes := []
  mResult : eTransactionValidationResult := .invalid
  mERGUsed : BigInt := 0
  mERGPrice : BigInt := 0
  doNotIncludeInChain : Bool := false
  deriving DecidableEq, Repr

/-- The marks of an object in the memory pool. -/
structure HotStorageProperties where
  markedAsProcessed : Bool := false
  markedAsInvalid : Bool := false
  markedForDeletion : Bool := false
  triggerRequired : Bool := false
  deriving DecidableEq, Repr

/-- A transaction object: the transaction with its cold and hot properties. -/
structure PoolTransaction extends CTransaction where
  isASacrifice : Bool := false
  coldInvalid : Bool := false
  HotProperties : HotStorageProperties := {}
  deriving DecidableEq, Repr

/-- What processing reads of the block that the transactions are part of, or are to become part of. -/
structure CBlockProposal where
  isKeyBlock : Bool := false
  isCheckpointed : Bool := false
  height : UInt64 := 0
  keyHeight : UInt64 := 0
  transactions : List CTransaction := []
  receipts : List CReceipt := []
  deriving DecidableEq, Repr

/-- The arguments of a call of `processScript`. -/
structure ScriptCall where
  source : Bytes
  issuer : Bytes
  keyHeight : UInt64
  receiptID : Bytes
  excuseERGusage : Bool
  ERGLimit : BigInt
  deriving DecidableEq, Repr

/-- The code that is not at hand: the crypto factory, the tools, the security settings, the compiler
and the script engine. `genAddress` yields its answer and what it left in the address; the engine
yields its receipt and the domains after the script. -/
structure NodeServices where
  factory : CCryptoFactory
  verifySignature : Bytes → Bytes → Bytes → Bool
  genAddress : Bytes → Bool × Bytes
  bytesToString : Bytes → String
  base58CheckEncode : Bytes → String
  BigSIntToBytes : ℤ → Bytes
  valueTransferFlags : Bytes
  getHash : CTransaction → Bytes
  getPackedSize : CTransaction → ℕ
  getReceiptIDForTransaction : Bytes → Bytes
  mTransactionsReceiptsIndex : Bytes → Option Bytes
  getSilencedDomains : List String
  getMinERGLimit : BigInt
  getMinNodeERGPrice : UInt64 → BigInt
  getMaxDataBlockSize : ℕ
  mMaxERGUsage : BigInt
  getTransactionSourceRewrite : String → UInt64 → Option Bytes
  compiler : Option (Bytes → Option Bytes)
  parseSendCommand : Bytes → UInt64 → CSendCommandParsingResult
  getSourceCode : Bytes → Bytes
  verifySacrificialTransactionSemantics : CTransaction → Bool
  processScript : ScriptCall → Ledger → CReceipt × Ledger

/-- What ends the process while a transaction is processed. -/
inductive ProcessFault where
  | fault (e : Fault)
  | nullDereference
  deriving DecidableEq, Repr

/-- `memcmp` of the first `n` bytes against zero; both vectors need to have them. -/
def memcmpEq (a b : Bytes) (n : ℕ) : Except Fault Bool :=
  if a.length < n ∨ b.length < n then .error .outOfRange
  else .ok (a.take n = b.take n)

namespace NodeServices

variable (S : NodeServices)

/-- The issuer as it is written in a transaction is one of the silenced domains. -/
def isSilenced (issuer : Bytes) : Bool := S.bytesToString issuer ∈ S.getSilencedDomains

/-- The replacement of the source code of a committed transaction. -/
def rewrittenSource (block : Option CBlockProposal) (receiptID : Bytes) : Option Bytes :=
  match block with
  | none => none
  | some block =>
      if receiptID = [] then none
      else S.getTransactionSourceRewrite (S.base58CheckEncode receiptID) block.height

/-- What is added to the statistics of an issuer; nothing, if the code is not a value transfer. -/
def statsEntry (code : Bytes) (keyHeight : UInt64) (receiptID : Bytes)
    (block : Option CBlockProposal) : Except Fault (Option (List Bytes)) :=
  match S.compiler with
  | none => .error .assertion
  | some decompile =>
      let sourceCode := match S.rewrittenSource block receiptID with
        | some source => source
        | none => (decompile code).getD []
      if sourceCode = [] then .ok none
      else
        let parsingResult := S.parseSendCommand sourceCode keyHeight
        if parsingResult.mSuccess then
          .ok (some [S.valueTransferFlags, receiptID, parsingResult.mRecipient,
            S.BigSIntToBytes (-(parsingResult.mAmount.toNat : ℤ))])
        else .ok none

end NodeServices

/-- `CTransaction::verifySignature`. -/
def CTransaction.verifySignature (t : CTransaction) (S : NodeServices) (publicKey : Bytes) : Bool :=
  if t.mSignature = [] then false
  else S.verifySignature t.mSignature (t.getDataToSign S.factory) publicKey

/-! ### Before processing -/

section PreValidation

variable (S : NodeServices) (l : Ledger) (t : CTransaction)

/-- The bytecode of the transaction, if there is any, can be decompiled. -/
def decompilable : Bool :=
  match S.compiler with
  | none => true
  | some decompile => t.mCode = [] ∨ (decompile t.mCode).isSome

/-- The public key that the identity token of the issuer's domain holds. -/
def identityTokenKey : Except eTransactionValidationResult Bytes :=
  match l.findByID t.mIssuer with
  | none => .error .unknownIssuer
  | some issuerSD =>
      match issuerSD.IDToken with
      | none => .error .noIDToken
      | some pubKey => if pubKey.length ≠ 32 then .error .invalid else .ok pubKey

/-- The first steps: a given key has to be that of a given issuer, and a missing key is taken from the
identity token. -/
def preValidateKey : Except eTransactionValidationResult Bytes :=
  if t.mPubKey = [] then
    if t.mIssuer = [] then .error .unknownIssuer else identityTokenKey l t
  else if t.mIssuer = [] then .ok t.mPubKey
  else if (S.genAddress t.mPubKey).1 = false then .error .invalid
  else if (S.genAddress t.mPubKey).2 ≠ t.mIssuer then .error .pubNotMatch
  else .ok t.mPubKey

/-- The steps after the key is known: signature, domain, price, balance and nonce. -/
def preValidateIssuer (keyHeight : UInt64) (txDesc : Option BigInt) (pubKey : Bytes) :
    eTransactionValidationResult :=
  if pubKey.length ≠ 32 then .noPublicKey
  else if t.verifySignature S pubKey = false then .invalidSig
  else if (S.genAddress pubKey).1 = false then .invalid
  else
    match l.findByID (S.genAddress pubKey).2 with
    | none => .unknownIssuer
    | some issuerSD =>
        if t.mErgPrice = 0 ∨ t.mErgPrice < S.getMinNodeERGPrice keyHeight then .ERGBidTooLow
        else if issuerSD.getBalance < t.mErgLimit * t.mErgPrice then .invalidBalance
        else if t.mNonce ≤ issuerSD.mNonce then .invalidNonce
        else
          match txDesc with
          | none => .valid
          | some value =>
              if issuerSD.getBalance < t.mErgLimit * t.mErgPrice + value then .invalidBalance
              else .valid

/-- `preValidateTransaction`; of the description the value of the transfer is used. -/
def preValidateTransaction (keyHeight : UInt64) (txDesc : Option BigInt) :
    eTransactionValidationResult :=
  if decompilable S t = false then .invalidBytecode
  else
    match preValidateKey S l t with
    | .error result => result
    | .ok pubKey => preValidateIssuer S l t keyHeight txDesc pubKey

end PreValidation

/-! ### Processing -/

/-- What `processTransaction` decides before the script: a receipt is returned, the failure that the
block records is repeated, or the script is run. The confirmed domain is empty before it is known. -/
inductive Verdict where
  | refused (result : eTransactionValidationResult) (doNotInclude : Bool) (confirmedDomainID : Bytes)
  | untimely (deferred : Bool) (confirmedDomainID : Bytes)
  | failureEnforced (confirmedDomainID : Bytes)
  | invalidSacrifice (confirmedDomainID : Bytes)
  | execute (confirmedDomainID : Bytes)
  deriving DecidableEq, Repr

section Admission

variable (S : NodeServices) (l : Ledger) (t : PoolTransaction)

/-- The comparison of a given key with a given issuer: as many bytes as the address has, and the answer
of `genAddress` is not looked at. -/
def keyMatchesIssuer : Except Fault Bool :=
  if t.mPubKey ≠ [] ∧ t.mIssuer ≠ [] then
    memcmpEq (S.genAddress t.mPubKey).2 t.mIssuer (S.genAddress t.mPubKey).2.length
  else .ok true

/-- The public key: the explicit one, or the one of the issuer's identity token. Only the second way is
closed to a silenced domain. -/
def resolveKey (inBlock : Bool) : Except eTransactionValidationResult Bytes :=
  if t.mPubKey.length = 32 then .ok t.mPubKey
  else if t.mIssuer = [] then .error .unknownIssuer
  else if inBlock = false ∧ S.isSilenced t.mIssuer then .error .invalidSig
  else identityTokenKey l t.toCTransaction

/-- The address of the issuer and its domain, once the signature is verified. -/
def authenticate (inBlock : Bool) : Except eTransactionValidationResult (Bytes × StateDomain) :=
  match resolveKey S l t inBlock with
  | .error result => .error result
  | .ok pubKey =>
      if pubKey.length ≠ 32 then .error .noPublicKey
      else if t.verifySignature S pubKey = false then .error .invalidSig
      else if (S.genAddress pubKey).1 = false then .error .invalid
      else
        match l.findByID (S.genAddress pubKey).2 with
        | none => .error .unknownIssuer
        | some issuerSD => .ok (Ledger.addressOf (S.genAddress pubKey).2, issuerSD)

/-- A checkpointed block in which the transaction succeeded overrules its nonce. -/
def nonceExcused (existingReceipt : Option CReceipt) (existingBlock : Option CBlockProposal) : Bool :=
  match existingReceipt, existingBlock with
  | some receipt, some block =>
      block.isCheckpointed ∧ (receipt.mResult = .valid ∨ receipt.mResult = .validNoTrieEffect)
  | _, _ => false

/-- The checks of the authenticated issuer. -/
def judgeIssuer (keyHeight : UInt64) (excused enforceFailure : Bool) (confirmedDomainID : Bytes)
    (issuerSD : StateDomain) : Verdict :=
  if issuerSD.mNonce + 1 ≠ t.mNonce ∧ excused = false then
    .untimely (issuerSD.mNonce < t.mNonce) confirmedDomainID
  else if enforceFailure then .failureEnforced confirmedDomainID
  else if t.mErgPrice = 0 ∨ t.mErgPrice < S.getMinNodeERGPrice keyHeight then
    .refused .ERGBidTooLow true confirmedDomainID
  else if issuerSD.getBalance = 0 then .refused .invalidBalance true confirmedDomainID
  else if issuerSD.getBalance < t.mErgLimit * t.mErgPrice then
    .refused .invalidBalance true confirmedDomainID
  else if t.isASacrifice ∧ S.verifySacrificialTransactionSemantics t.toCTransaction = false then
    .invalidSacrifice confirmedDomainID
  else .execute confirmedDomainID

/-- All that is decided before the script. -/
def judge (keyHeight : UInt64) (existingReceipt : Option CReceipt)
    (existingBlock : Option CBlockProposal) (enforceFailure : Bool) : Except Fault Verdict :=
  match keyMatchesIssuer S t with
  | .error e => .error e
  | .ok false => .ok (.refused .pubNotMatch false [])
  | .ok true =>
      match authenticate S l t existingBlock.isSome with
      | .error result => .ok (.refused result true [])
      | .ok (confirmedDomainID, issuerSD) =>
          .ok (judgeIssuer S t keyHeight (nonceExcused existingReceipt existingBlock) enforceFailure
            confirmedDomainID issuerSD)

end Admission

/-- What `processTransaction` returns and sets: `changed` are the domains where it changed them, and
`scriptCall` records whether the script was run, and with what. -/
structure Processed where
  receipt : CReceipt
  confirmedDomainID : Bytes := []
  transaction : PoolTransaction
  changed : Option Ledger := none
  scriptCall : Option ScriptCall := none

section Processing

variable (S : NodeServices) {DB : Type} (T : LedgerTrie DB)

/-- The receipt that is returned where the script is not run. -/
def preliminaryReceipt (t : PoolTransaction) (receiptID : Bytes)
    (result : eTransactionValidationResult) (doNotInclude : Bool) : CReceipt :=
  { mGUID := receiptID
    mVerifiableID := S.getHash t.toCTransaction
    mResult := result
    doNotIncludeInChain := doNotInclude }

/-- The call of the script engine for a transaction of a confirmed domain. -/
def scriptCallOf (t : PoolTransaction) (keyHeight : UInt64) (receiptID : Bytes)
    (existingBlock : Option CBlockProposal) (excuseERGusage : Bool) (confirmedDomainID : Bytes) :
    ScriptCall :=
  { source := (S.rewrittenSource existingBlock receiptID).getD (S.getSourceCode t.mCode)
    issuer := confirmedDomainID
    keyHeight
    receiptID
    excuseERGusage
    ERGLimit := t.mErgLimit }

/-- The engine's receipt, completed. -/
def completedReceipt (t : PoolTransaction) (receiptID : Bytes) (codeProcessingReceipt : CReceipt) :
    CReceipt :=
  { codeProcessingReceipt with
    mERGPrice := t.mErgPrice
    mGUID := if 32 ≤ receiptID.length then receiptID else codeProcessingReceipt.mGUID
    mVerifiableID := S.getHash t.toCTransaction }

/-- The domains with an entry in the statistics of the issuer. -/
def withStats (l : Ledger) (confirmedDomainID : Bytes) (entry : Option (List Bytes)) : Ledger :=
  match entry, l.findByID confirmedDomainID with
  | some nibbles, some issuerSD => l.save confirmedDomainID (issuerSD.addTXStats nibbles)
  | _, _ => l

/-- What follows from the verdict, over the domains that it is about. -/
def carryOut (l : Ledger) (t : PoolTransaction) (keyHeight : UInt64) (receiptID : Bytes)
    (existingReceipt : Option CReceipt) (existingBlock : Option CBlockProposal)
    (excuseERGusage : Bool) : Verdict → Except ProcessFault Processed
  | .refused result doNotInclude confirmedDomainID => .ok
      { receipt := preliminaryReceipt S t receiptID result doNotInclude
        confirmedDomainID
        transaction := t }
  | .untimely deferred confirmedDomainID => .ok
      { receipt := preliminaryReceipt S t receiptID .invalidNonce true
        confirmedDomainID
        transaction := if deferred then
            { t with HotProperties := { t.HotProperties with triggerRequired := true } }
          else t }
  | .failureEnforced confirmedDomainID =>
      match S.statsEntry t.mCode keyHeight receiptID existingBlock, existingReceipt with
      | .error e, _ => .error (.fault e)
      | .ok _, none => .error .nullDereference
      | .ok entry, some receipt => .ok
          { receipt
            confirmedDomainID
            transaction := t
            changed := some (withStats l confirmedDomainID entry) }
  | .invalidSacrifice confirmedDomainID => .ok
      { receipt := {
          mGUID := if 32 ≤ receiptID.length then receiptID else []
          mResult := .invalidSacrifice }
        confirmedDomainID
        transaction := t }
  | .execute confirmedDomainID =>
      let call := scriptCallOf S t keyHeight receiptID existingBlock excuseERGusage confirmedDomainID
      let processed := S.processScript call l
      .ok
        { receipt := completedReceipt S t receiptID processed.1
          confirmedDomainID
          transaction := t
          changed := some processed.2
          scriptCall := some call }

/-- Processing behind the snapshot, over the domains of the flow state. -/
def processOver (l : Ledger) (t : PoolTransaction) (keyHeight : UInt64) (receiptID : Bytes)
    (existingReceipt : Option CReceipt) (existingBlock : Option CBlockProposal)
    (excuseERGusage enforceFailure : Bool) : Except ProcessFault Processed :=
  match judge S l t keyHeight existingReceipt existingBlock enforceFailure with
  | .error e => .error (.fault e)
  | .ok verdict =>
      carryOut S l t keyHeight receiptID existingReceipt existingBlock excuseERGusage verdict

/-- `processTransaction`, with the manager that it leaves behind. A limit below the minimum is looked up
in the block exactly where there is none. -/
def processTransaction (m : TransactionManager DB) (t : PoolTransaction) (keyHeight : UInt64)
    (receiptID : Bytes) (existingReceipt : Option CReceipt) (existingBlock : Option CBlockProposal)
    (excuseERGusage enforceFailure : Bool) :
    Except ProcessFault (Processed × TransactionManager DB) :=
  if existingBlock = none ∧ t.mErgLimit < S.getMinERGLimit then .error .nullDereference
  else
    let inFlowTempDB := T.copy m.mFlowStateDB
    match memcmpEq (T.getPerspective inFlowTempDB) (T.getPerspective m.mFlowStateDB) 32 with
    | .error e => .error (.fault e)
    | .ok false => .ok
        ({ receipt := preliminaryReceipt S t receiptID .incosistentData false
           transaction := { t with coldInvalid := true } }, m)
    | .ok true =>
        match m.pushDB T.toTrieDB inFlowTempDB true [] with
        | .error e => .error (.fault e)
        | .ok m =>
            match processOver S (m.ledger T) t keyHeight receiptID existingReceipt existingBlock
                excuseERGusage enforceFailure with
            | .error e => .error e
            | .ok processed => .ok (processed, m.withChanged T processed.changed)

end Processing

/-! ### What processing amounts to -/

section Facts

variable {S : NodeServices} {DB : Type} {T : LedgerTrie DB} {m : TransactionManager DB}

theorem memcmpEq_self {a : Bytes} {n : ℕ} (hlength : n ≤ a.length) : memcmpEq a a n = .ok true := by
  rw [memcmpEq, if_neg (by omega), decide_eq_true rfl]

/-- Processing comes down to the verdict over the domains of the flow state. -/
theorem processTransaction_eq (hT : T.Documented) {m₁ : TransactionManager DB}
    (hpush : m.pushDB T.toTrieDB (T.copy m.mFlowStateDB) true [] = .ok m₁) {t : PoolTransaction}
    {existingBlock : Option CBlockProposal}
    (hlimit : ¬ (existingBlock = none ∧ t.mErgLimit < S.getMinERGLimit)) (keyHeight : UInt64)
    (receiptID : Bytes) (existingReceipt : Option CReceipt) (excuseERGusage enforceFailure : Bool) :
    processTransaction S T m t keyHeight receiptID existingReceipt existingBlock excuseERGusage
        enforceFailure =
      match processOver S (m₁.ledger T) t keyHeight receiptID existingReceipt existingBlock
          excuseERGusage enforceFailure with
      | .error e => .error e
      | .ok processed => .ok (processed, m₁.withChanged T processed.changed) := by
  have hcopy : T.getPerspective (T.copy m.mFlowStateDB) = T.getPerspective m.mFlowStateDB :=
    hT.copy_perspective _
  have hlength : 32 ≤ (T.getPerspective m.mFlowStateDB).length :=
    (hT.perspective_length _).ge
  unfold processTransaction
  rw [if_neg hlimit]
  dsimp only
  rw [hcopy, memcmpEq_self hlength]
  dsimp only
  rw [hpush]

end Facts

section Samples

/-- A trie that keeps its domains in memory; cold storage has none of them. -/
def memoryTrie (root : Ledger → Bytes) : LedgerTrie (Ledger × Bytes) where
  copy d := d
  getPerspective d := root d.1
  getAssociatedObjectID d := d.2
  setAssociatedObjectID d id := (d.1, id)
  setPerspective d _ _ := (false, d)
  assign d t := (t.1, d.2)
  domains d := d.1
  withDomains d l := (l, d.2)

theorem memoryTrie_documented {root : Ledger → Bytes} (hroot : ∀ l, (root l).length = 32) :
    (memoryTrie root).Documented where
  copy_perspective _ := rfl
  setAssociatedObjectID_perspective _ _ := rfl
  setAssociatedObjectID_id _ _ := rfl
  setPerspective_perspective _ _ _ h := nomatch h
  assign_perspective _ _ := rfl
  domains_copy _ := rfl
  domains_setAssociatedObjectID _ _ := rfl
  domains_withDomains _ _ := rfl
  domains_setPerspective _ _ h := nomatch h
  domains_assign _ _ := rfl
  perspective_of_domains _ _ h := congrArg root h
  perspective_length d := hroot d.1

def sampleKey (owner : UInt8) : Bytes := List.replicate 32 owner

def sampleAddress (owner : UInt8) : Bytes := 0 :: 0 :: sampleKey owner

/-- The nonces and balances of two owners. -/
def sampleRoot (l : Ledger) : Bytes :=
  [sampleAddress 1, sampleAddress 2].flatMap fun id =>
    match l.findByID id with
    | none => fixedBytes 16 0
    | some d => fixedBytes 8 d.mNonce.toNat ++ fixedBytes 8 (d.getBalance.toNat + 1)

theorem sampleRoot_length (l : Ledger) : (sampleRoot l).length = 32 := by
  have hentry : ∀ id, (match l.findByID id with
      | none => fixedBytes 16 0
      | some d => fixedBytes 8 d.mNonce.toNat ++ fixedBytes 8 (d.getBalance.toNat + 1)).length =
        16 := by
    intro id
    cases l.findByID id with
    | none => exact fixedBytes_length ..
    | some d => simp only [List.length_append, fixedBytes_length]
  simp only [sampleRoot, List.flatMap_cons, List.flatMap_nil, List.length_append, List.length_nil,
    hentry]

/-- Signatures repeat the key, and addresses are keys of 32 bytes behind two zeros. The script `[7]`
fails, and every script uses five ERG. -/
def sampleServices : NodeServices where
  factory := {
    getSHA2_256Vec _ := List.replicate 32 0
    getSHA2_256Vec_length _ := List.length_replicate
    verifySignature _ _ _ := true }
  verifySignature signature _ publicKey := signature = publicKey
  genAddress key := if key.length = 32 then (true, 0 :: 0 :: key) else (false, [])
  bytesToString b := String.ofList (b.map fun c => Char.ofNat c.toNat)
  base58CheckEncode b := String.ofList (b.map fun c => Char.ofNat c.toNat)
  BigSIntToBytes n := [.ofNat n.natAbs]
  valueTransferFlags := [1]
  getHash t := fixedBytes 32 (t.mNonce.toNat + 256 * t.mErgLimit.toNat)
  getPackedSize _ := 100
  getReceiptIDForTransaction hash := hash
  mTransactionsReceiptsIndex hash := some hash
  getSilencedDomains := [String.ofList ((sampleAddress 2).map fun c => Char.ofNat c.toNat)]
  getMinERGLimit := 10
  getMinNodeERGPrice _ := 1
  getMaxDataBlockSize := 1000
  mMaxERGUsage := 1000
  getTransactionSourceRewrite _ _ := none
  compiler := some some
  parseSendCommand _ _ := {}
  getSourceCode code := code
  verifySacrificialTransactionSemantics _ := false
  processScript call l :=
    ({ mResult := if call.source = [7] then .invalid else .valid, mERGUsed := 5 }, l)

/-- Each of two owners has a domain with a balance of 500 and the key in its identity token. -/
def sampleLedger : Ledger :=
  let domain (owner : UInt8) : StateDomain :=
    { assetType := .BigInt, assetValue := 500, IDToken := some (sampleKey owner) }
  Ledger.save (Ledger.save (fun _ => none) (sampleAddress 1) (domain 1)) (sampleAddress 2) (domain 2)

def sampleTrie : LedgerTrie (Ledger × Bytes) := memoryTrie sampleRoot

theorem sampleTrie_documented : sampleTrie.Documented := memoryTrie_documented sampleRoot_length

/-- A flow with its first snapshot. -/
def sampleFlow : TransactionManager (Ledger × Bytes) where
  mFlowStateDB := (sampleLedger, [])
  mInFlowInterDBs := [(sampleLedger, [])]
  mInFlowInterPerspectives := [sampleRoot sampleLedger]

theorem sampleFlow_wellFormed : sampleFlow.WellFormed sampleTrie.toTrieDB where
  aligned := rfl
  bounded := by decide
  depth := Nat.le_refl _

/-- The next transaction of an owner, signed with its key. -/
def sampleTransaction (owner : UInt8) : PoolTransaction where
  mPubKey := sampleKey owner
  mSignature := sampleKey owner
  mNonce := 1
  mCode := [5]
  mErgPrice := 1
  mErgLimit := 20

end Samples

end Gridnet
