import Gridnet.TransactionProcessing

/-! `processTransactions`: one loop that forms a block or verifies against it, turn by turn, and the
second loop over deferred transactions when a block is formed. -/

namespace Gridnet

/-- The flags of a call. -/
structure ProcessingMode where
  markAsProcessed : Bool
  addToBlock : Bool
  verifyAgainstBlock : Bool
  deriving DecidableEq, Repr

/-- What a call changes beside the transactions: the manager, its counters, the proposal, the receipts,
and the local variables of the loops. -/
structure BlockState (M : Type) where
  manager : M
  mUtilizedBlockSize : ℕ := 0
  mUtilizedERG : BigInt := 0
  mTotalGNCFees : BigInt := 0
  proposal : CBlockProposal
  receipts : List CReceipt := []
  countOfDomains : ℕ := 0
  issuersWithSuccessfulTx : List Bytes := []

/-- How a turn ends: with the next transaction, by leaving the loop, or with the whole block. -/
inductive TurnEnd where
  | proceed
  | leaveLoop
  | reject
  deriving DecidableEq, Repr

/-- A turn before its clean-up: its end, the transaction with its marks, and the effective receipt. -/
structure Turn (M : Type) where
  ending : TurnEnd
  transaction : PoolTransaction
  receipt : CReceipt
  state : BlockState M

/-- A call within `assertGN`. -/
def asserted {M : Type} : Except Fault (Bool × M) → Except ProcessFault M
  | .error e => .error (.fault e)
  | .ok (false, _) => .error (.fault .assertion)
  | .ok (true, m) => .ok m

namespace CBlockProposal

/-- `getReceiptForTransaction` of the header. -/
def getReceiptForTransaction (block : CBlockProposal) (transactionID : Bytes) : Option CReceipt :=
  if transactionID.length ≠ 32 then none
  else block.receipts.find? fun receipt => receipt.mVerifiableID = transactionID

/-- `addTransaction`, within its assertion: key blocks have no transactions. -/
def addTransaction (block : CBlockProposal) (t : CTransaction) : Except ProcessFault CBlockProposal :=
  if block.isKeyBlock then .error (.fault .assertion)
  else .ok { block with transactions := block.transactions ++ [t] }

end CBlockProposal

namespace PoolTransaction

def markHotAsInvalid (t : PoolTransaction) : PoolTransaction :=
  { t with HotProperties := { t.HotProperties with markedAsInvalid := true } }

/-- Both marks of an invalid transaction. -/
def markAsInvalid (t : PoolTransaction) : PoolTransaction :=
  { t.markHotAsInvalid with coldInvalid := true }

def markAsProcessed (t : PoolTransaction) : PoolTransaction :=
  { t with HotProperties := { t.HotProperties with markedAsProcessed := true } }

def markForDeletion (t : PoolTransaction) : PoolTransaction :=
  { t with HotProperties := { t.HotProperties with markedForDeletion := true } }

end PoolTransaction

section Loop

variable (S : NodeServices) {M DB : Type} (T : LedgerTrie DB) (mode : ProcessingMode)

/-- `getReceiptIDForTransaction` of the manager: the ID that the pool has for the transaction. -/
def poolReceiptID (transID : Bytes) : Bytes := (S.mTransactionsReceiptsIndex transID).getD []

/-- The condition that both loops check before a turn. -/
def withinLimits (st : BlockState M) : Bool :=
  st.mUtilizedBlockSize < S.getMaxDataBlockSize ∧ st.mUtilizedERG < S.mMaxERGUsage

/-- The manager at the start of a turn: its depth counter is reset, and the object is set. -/
def beginTransaction (m : TransactionManager DB) (transID : Bytes) : TransactionManager DB :=
  { m.resetCurrentTXDBStackDepth with
    mCurrentFlowObjectID := S.getReceiptIDForTransaction transID }

/-- The clean-up of a turn: a transaction that does not become part of the chain is reverted. -/
def endTransaction (m : TransactionManager DB) (receipt : CReceipt) :
    Except ProcessFault (TransactionManager DB) :=
  match asserted (if receipt.doNotIncludeInChain then m.revertTX T.toTrieDB
      else m.popCurrentTXDBs T.toTrieDB) with
  | .error e => .error e
  | .ok m => .ok { m with mCurrentFlowObjectID := [] }

/-- The fee of a receipt. -/
def CReceipt.fee (receipt : CReceipt) : BigInt := receipt.mERGUsed * receipt.mERGPrice

/-- Whether what the transaction did is rolled back: it failed, and was not forced to. -/
def rollsBack (receipt : CReceipt) (enforceFailure : Bool) : Bool :=
  receipt.mResult ≠ .valid ∧ enforceFailure = false

/-- The issuer's domain with the receipt noted, and with the statistics of a failed transfer. -/
def noteReceipt (t : PoolTransaction) (receipt : CReceipt) (receiptID : Bytes)
    (enforceFailure : Bool) (proposal : CBlockProposal) (domain : StateDomain) :
    Except ProcessFault StateDomain :=
  let domain := domain.addReceipt receiptID
  if rollsBack receipt enforceFailure then
    match S.statsEntry t.mCode proposal.keyHeight receiptID (some proposal) with
    | .error e => .error (.fault e)
    | .ok none => .ok domain
    | .ok (some nibbles) => .ok (domain.addTXStats nibbles)
  else .ok domain

/-- What a transaction of a confirmed domain costs: the roll-back of a failed one, the nonce and the
fee; `false` where the fee cannot be taken. -/
def chargeIssuer (m : TransactionManager DB) (t : PoolTransaction) (receipt : CReceipt)
    (receiptID : Bytes) (enforceFailure : Bool) (proposal : CBlockProposal)
    (confirmedDomainID : Bytes) : Except ProcessFault (Bool × TransactionManager DB) :=
  match if rollsBack receipt enforceFailure then asserted (m.stepBack T.toTrieDB 1) else .ok m with
  | .error e => .error e
  | .ok m =>
      match m.pushDB T.toTrieDB (T.copy m.mFlowStateDB) true [] with
      | .error e => .error (.fault e)
      | .ok m =>
          match (m.ledger T).findByID confirmedDomainID with
          | none => .error .nullDereference
          | some domain =>
              let domain := domain.incNonce
              let m := m.withLedger T ((m.ledger T).save confirmedDomainID domain)
              match domain.changeBalanceBy (-(receipt.fee.toNat : ℤ)) with
              | none => .ok (false, m)
              | some domain =>
                  match m.popDB 1 with
                  | .error e => .error (.fault e)
                  | .ok (_, m) =>
                      match noteReceipt S t receipt receiptID enforceFailure proposal domain with
                      | .error e => .error e
                      | .ok domain => .ok (true,
                          m.withLedger T ((m.ledger T).save confirmedDomainID domain))

/-- The calls of a turn that work on the state of the flow. -/
structure ManagerCalls (M : Type) where
  processTransaction (m : M) (transID : Bytes) (t : PoolTransaction) (keyHeight : UInt64)
    (receiptID : Bytes) (existingReceipt : Option CReceipt) (existingBlock : Option CBlockProposal)
    (excuseERGusage enforceFailure : Bool) : Except ProcessFault (Processed × M)
  chargeIssuer (m : M) (t : PoolTransaction) (receipt : CReceipt) (receiptID : Bytes)
    (enforceFailure : Bool) (proposal : CBlockProposal) (confirmedDomainID : Bytes) :
    Except ProcessFault (Bool × M)
  stepBack (m : M) : Except ProcessFault M
  endTransaction (m : M) (receipt : CReceipt) : Except ProcessFault M

/-- The calls on the manager itself. -/
def managerCalls : ManagerCalls (TransactionManager DB) where
  processTransaction m transID t keyHeight receiptID existingReceipt existingBlock excuseERGusage
      enforceFailure :=
    processTransaction S T (beginTransaction S m transID) t keyHeight receiptID existingReceipt
      existingBlock excuseERGusage enforceFailure
  chargeIssuer := chargeIssuer S T
  stepBack m := asserted (m.stepBack T.toTrieDB 1)
  endTransaction := endTransaction T

/-- The marks of a transaction at the end of its turn. -/
def finalMarks (t : PoolTransaction) (receipt : CReceipt) : PoolTransaction :=
  if mode.markAsProcessed then
    let t := t.markAsProcessed
    if receipt.doNotIncludeInChain then
      if receipt.mResult = .invalidNonce ∧ t.HotProperties.triggerRequired then t
      else t.markForDeletion
    else t
  else t

/-- The counters with what a transaction used. -/
def BlockState.tally (st : BlockState M) (t : PoolTransaction) (receipt : CReceipt) : BlockState M :=
  { st with
    mUtilizedERG := st.mUtilizedERG + receipt.mERGUsed
    mTotalGNCFees := st.mTotalGNCFees + receipt.fee
    mUtilizedBlockSize := st.mUtilizedBlockSize + S.getPackedSize t.toCTransaction }

/-- The end of a turn: the receipt is handed out, and with it the transaction is added to a block that
is formed. -/
def recordTransaction (st : BlockState M) (t : PoolTransaction) (blockReceipt receipt : CReceipt) :
    Except ProcessFault (Turn M) :=
  if mode.verifyAgainstBlock then
    .ok ⟨.proceed, finalMarks mode t receipt, receipt,
      { st with receipts := st.receipts ++ [blockReceipt] }⟩
  else if receipt.doNotIncludeInChain = false ∧ mode.addToBlock then
    match st.proposal.addTransaction t.toCTransaction with
    | .error e => .error e
    | .ok proposal => .ok
        ⟨.proceed, finalMarks mode t receipt, receipt,
          { st with proposal, receipts := st.receipts ++ [receipt] }⟩
  else .ok ⟨.proceed, finalMarks mode t receipt, receipt, st⟩

/-- The last part of a turn: what the transaction used is counted, unless it takes the block over its
limits. There `stepBack` takes one step back, whatever is left of the transaction on the stack. -/
def countTransaction (stepBack : M → Except ProcessFault M) (st : BlockState M) (t : PoolTransaction)
    (blockReceipt receipt : CReceipt) : Except ProcessFault (Turn M) :=
  if (receipt.doNotIncludeInChain = false ∧ mode.addToBlock) ∨ mode.verifyAgainstBlock then
    if withinLimits S (st.tally S t receipt) then
      recordTransaction mode (st.tally S t receipt) t blockReceipt receipt
    else if mode.verifyAgainstBlock then .ok ⟨.reject, t, receipt, st.tally S t receipt⟩
    else
      match stepBack st.manager with
      | .error e => .error e
      | .ok m => .ok
          ⟨.leaveLoop, { t with HotProperties := {} }, receipt,
            { st with manager := m, countOfDomains := st.countOfDomains - 1 }⟩
  else recordTransaction mode st t blockReceipt receipt

/-- How the middle of a turn goes on, by whether the issuer could be charged. -/
def afterCharge (stepBack : M → Except ProcessFault M) (st : BlockState M) (t : PoolTransaction)
    (blockReceipt receipt : CReceipt) (confirmedDomainID : Bytes) (charged : Bool × M) :
    Except ProcessFault (Turn M) :=
  if charged.1 then
    countTransaction S mode stepBack
      { st with
        manager := charged.2
        countOfDomains := st.countOfDomains + 1
        issuersWithSuccessfulTx := st.issuersWithSuccessfulTx ++ [confirmedDomainID] }
      t blockReceipt receipt
  else if mode.verifyAgainstBlock then .ok ⟨.reject, t, receipt, { st with manager := charged.2 }⟩
  else .ok
    ⟨.proceed, t.markAsProcessed.markHotAsInvalid,
      { receipt with mResult := .invalidBalance, doNotIncludeInChain := true },
      { st with manager := charged.2 }⟩

/-- The marks of a transaction that failed and becomes part of the chain. -/
def failureMarks (t : PoolTransaction) (receipt : CReceipt) : PoolTransaction :=
  if receipt.mResult ≠ .valid ∧ mode.markAsProcessed then t.markAsInvalid else t

/-- The middle of a turn: a transaction of a confirmed domain that becomes part of the chain is
charged; one that cannot become part of it makes a block that is verified invalid. -/
def settleTransaction (calls : ManagerCalls M) (st : BlockState M) (t : PoolTransaction)
    (blockReceipt receipt : CReceipt) (receiptID : Bytes) (enforceFailure : Bool)
    (confirmedDomainID : Bytes) : Except ProcessFault (Turn M) :=
  if receipt.doNotIncludeInChain = false ∧ confirmedDomainID ≠ [] then
    match calls.chargeIssuer st.manager t receipt receiptID enforceFailure st.proposal
        confirmedDomainID with
    | .error e => .error e
    | .ok charged =>
        afterCharge S mode calls.stepBack st (failureMarks mode t receipt) blockReceipt receipt
          confirmedDomainID charged
  else if receipt.mResult ≠ .valid ∧ mode.verifyAgainstBlock ∧
      st.proposal.isCheckpointed = false then
    .ok ⟨.reject, t, receipt, st⟩
  else countTransaction S mode calls.stepBack st t blockReceipt receipt

/-- The receipt that counts: checkpointed blocks have their own account of the ERG, and a block that is
verified has no transactions that are not to be included. -/
def effectiveReceipt (receipt blockReceipt : CReceipt) (excuseERGusage enforceFailure : Bool) :
    CReceipt :=
  { receipt with
    mERGUsed := if excuseERGusage ∨ enforceFailure then blockReceipt.mERGUsed else receipt.mERGUsed
    doNotIncludeInChain := if mode.verifyAgainstBlock then false else receipt.doNotIncludeInChain }

/-- The receipt that the block has for the transaction; a block that is formed has none yet. -/
def blockReceiptFor (st : BlockState M) (transID : Bytes) : Option CReceipt :=
  if mode.verifyAgainstBlock then st.proposal.getReceiptForTransaction transID else some {}

/-- Excess ERG is excused for a transaction of a checkpointed block that succeeded. -/
def excusesERG (proposal : CBlockProposal) (blockReceipt : CReceipt) : Bool :=
  proposal.isCheckpointed ∧ blockReceipt.mResult = .valid

/-- The failure of a transaction of a checkpointed block is repeated, above a certain height. -/
def enforcesFailure (proposal : CBlockProposal) (blockReceipt : CReceipt) : Bool :=
  proposal.isCheckpointed ∧ blockReceipt.mResult = .invalid ∧ 60467 < proposal.height

/-- The ID of the receipt: the block's, or the one that the pool has for the transaction. -/
def receiptIDFor (blockReceipt : CReceipt) (transID : Bytes) : Bytes :=
  if mode.verifyAgainstBlock then blockReceipt.mGUID else poolReceiptID S transID

/-- A turn after the transaction was processed. -/
def turnAfter (calls : ManagerCalls M) (st : BlockState M) (transID : Bytes) (blockReceipt : CReceipt)
    (processed : Processed) : Except ProcessFault (Turn M) :=
  let enforceFailure := enforcesFailure st.proposal blockReceipt
  let receipt := effectiveReceipt mode processed.receipt blockReceipt
    (excusesERG st.proposal blockReceipt) enforceFailure
  match memcmpEq receipt.mVerifiableID transID 32 with
  | .error e => .error (.fault e)
  | .ok false => .ok ⟨.reject, processed.transaction, receipt, st⟩
  | .ok true =>
      settleTransaction S mode calls st processed.transaction blockReceipt receipt
        (receiptIDFor S mode blockReceipt transID) enforceFailure processed.confirmedDomainID

/-- A turn of the loop. -/
def processTurn (calls : ManagerCalls M) (st : BlockState M) (t : PoolTransaction) :
    Except ProcessFault (TurnEnd × PoolTransaction × BlockState M) :=
  let transID := S.getHash t.toCTransaction
  match blockReceiptFor mode st transID with
  | none => .ok (.reject, t, st)
  | some blockReceipt =>
      match calls.processTransaction st.manager transID t st.proposal.keyHeight
          (receiptIDFor S mode blockReceipt transID)
          (if mode.verifyAgainstBlock then some blockReceipt else none)
          (if mode.verifyAgainstBlock then some st.proposal else none)
          (excusesERG st.proposal blockReceipt) (enforcesFailure st.proposal blockReceipt) with
      | .error e => .error e
      | .ok (processed, m) =>
          match turnAfter S mode calls { st with manager := m } transID blockReceipt processed with
          | .error e => .error e
          | .ok turn =>
              match calls.endTransaction turn.state.manager turn.receipt with
              | .error e => .error e
              | .ok m => .ok (turn.ending, turn.transaction, { turn.state with manager := m })

/-- The loop over the transactions, with `processTurn` for a turn. It stops early at the limits of the
block, or when the manager is asked to stop, which may be at any number of transactions left. -/
def processLoop
    (processTurn : BlockState M → PoolTransaction →
      Except ProcessFault (TurnEnd × PoolTransaction × BlockState M))
    (running : ℕ → Bool) :
    List PoolTransaction → BlockState M →
      Except ProcessFault (TurnEnd × List PoolTransaction × BlockState M)
  | [], st => .ok (.proceed, [], st)
  | t :: ts, st =>
      if running ts.length ∧ withinLimits S st then
        if t.HotProperties.markedAsProcessed then
          match processLoop processTurn running ts st with
          | .error e => .error e
          | .ok (ending, ts, st) => .ok (ending, t :: ts, st)
        else
          match processTurn st t with
          | .error e => .error e
          | .ok (.proceed, t, st) =>
              match processLoop processTurn running ts st with
              | .error e => .error e
              | .ok (ending, ts, st) => .ok (ending, t :: ts, st)
          | .ok (ending, t, st) => .ok (ending, t :: ts, st)
      else .ok (.proceed, t :: ts, st)

/-- The marks of a transaction that was tried again. -/
def retryMarks (t : PoolTransaction) (receipt : CReceipt) : PoolTransaction :=
  if receipt.doNotIncludeInChain then
    if receipt.mResult = .invalidNonce ∧ t.HotProperties.triggerRequired then t
    else t.markAsProcessed.markForDeletion
  else t.markAsProcessed

/-- A turn of the second loop: a transaction that is not refused is added with its receipt, to the
block as well as to the receipts of the call. -/
def retryTurn (calls : ManagerCalls M) (st : BlockState M) (t : PoolTransaction) :
    Except ProcessFault (PoolTransaction × BlockState M) :=
  let transID := S.getHash t.toCTransaction
  match calls.processTransaction st.manager transID t st.proposal.keyHeight
      (poolReceiptID S transID) none none false false with
  | .error e => .error e
  | .ok (processed, m) =>
      match calls.endTransaction m processed.receipt with
      | .error e => .error e
      | .ok m =>
          let st := { st with manager := m }
          let t := retryMarks processed.transaction processed.receipt
          if processed.receipt.doNotIncludeInChain = false ∧ mode.addToBlock ∧
              processed.confirmedDomainID ≠ [] then
            match st.proposal.addTransaction processed.transaction.toCTransaction with
            | .error e => .error e
            | .ok proposal => .ok (t,
                { st with
                  proposal :=
                    { proposal with receipts := proposal.receipts ++ [processed.receipt] }
                  receipts := st.receipts ++ [processed.receipt]
                  countOfDomains := st.countOfDomains + 1 })
          else .ok (t, st)

def retryLoop (calls : ManagerCalls M) :
    List PoolTransaction → BlockState M →
      Except ProcessFault (List PoolTransaction × BlockState M)
  | [], st => .ok ([], st)
  | t :: ts, st =>
      if withinLimits S st then
        if t.HotProperties.markedAsProcessed then
          match retryLoop calls ts st with
          | .error e => .error e
          | .ok (ts, st) => .ok (t :: ts, st)
        else
          match retryTurn S mode calls st t with
          | .error e => .error e
          | .ok (t, st) =>
              match retryLoop calls ts st with
              | .error e => .error e
              | .ok (ts, st) => .ok (t :: ts, st)
      else .ok (t :: ts, st)

/-- The transactions of the pool that are tried again: those not yet processed of issuers with a
transaction in the block. -/
def toRetry (unprocessed : List PoolTransaction) (st : BlockState M) : List PoolTransaction :=
  unprocessed.filter fun t =>
    t.mIssuer ∈ st.issuersWithSuccessfulTx ∧ t.HotProperties.markedAsProcessed = false

/-- The count of transactions at the end; only for checkpointed blocks it may differ. -/
def countAgrees (st : BlockState M) : Bool :=
  st.countOfDomains = st.proposal.transactions.length ∨ st.proposal.isCheckpointed

/-- After the first loop: the second loop, where it takes place, and the count. -/
def afterLoop (calls : ManagerCalls M) (unprocessed : List PoolTransaction) (ending : TurnEnd)
    (ts : List PoolTransaction) (st : BlockState M) :
    Except ProcessFault (Bool × List PoolTransaction × BlockState M) :=
  if mode.verifyAgainstBlock = false ∧ mode.markAsProcessed ∧ ending = .proceed ∧
      st.issuersWithSuccessfulTx ≠ [] ∧ withinLimits S st then
    match retryLoop S mode calls (toRetry unprocessed st) st with
    | .error e => .error e
    | .ok (retried, st) => .ok (countAgrees st, ts ++ retried, st)
  else .ok (countAgrees st, ts, st)

/-- `processTransactions`, with the answer and the transactions with their marks, those tried again at
the end; `unprocessed` are the transactions that the pool hands out after the first loop. -/
def processTransactions (calls : ManagerCalls M) (running : ℕ → Bool)
    (transactions unprocessed : List PoolTransaction) (st : BlockState M) :
    Except ProcessFault (Bool × List PoolTransaction × BlockState M) :=
  if mode.addToBlock = mode.verifyAgainstBlock then .ok (false, transactions, st)
  else if transactions = [] then .ok (true, transactions, st)
  else
    match processLoop S (processTurn S mode calls) running transactions
        { st with countOfDomains := 0, issuersWithSuccessfulTx := [] } with
    | .error e => .error e
    | .ok (.reject, ts, st) => .ok (false, ts, st)
    | .ok (ending, ts, st) => afterLoop S mode calls unprocessed ending ts st

end Loop

section Facts

variable {mode : ProcessingMode}

theorem failureMarks_toCTransaction (t : PoolTransaction) (receipt : CReceipt) :
    (failureMarks mode t receipt).toCTransaction = t.toCTransaction := by
  unfold failureMarks
  split_ifs <;> rfl

theorem excusesERG_eq_false {proposal : CBlockProposal} (hckpt : proposal.isCheckpointed = false)
    (blockReceipt : CReceipt) : excusesERG proposal blockReceipt = false := by
  rw [excusesERG, hckpt, decide_eq_false]
  exact fun h => Bool.false_ne_true h.1

theorem enforcesFailure_eq_false {proposal : CBlockProposal}
    (hckpt : proposal.isCheckpointed = false) (blockReceipt : CReceipt) :
    enforcesFailure proposal blockReceipt = false := by
  rw [enforcesFailure, hckpt, decide_eq_false]
  exact fun h => Bool.false_ne_true h.1

end Facts

end Gridnet
