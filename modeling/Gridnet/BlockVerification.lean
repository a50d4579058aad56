import Gridnet.BlockRuns
import Gridnet.TurnRefinement
import Gridnet.Verdicts

/-! Verification against a block that no checkpoint covers: what a turn that does not reject the block
has done, and that an accepted block had such a turn for every transaction. -/

namespace Gridnet

open TransactionManager

/-! ### A turn that goes on -/

section Turn

variable {S : NodeServices} {mode : ProcessingMode}

/-- The receipt of a transaction as verification against a block uses it. -/
def includedReceipt (receipt : CReceipt) : CReceipt := { receipt with doNotIncludeInChain := false }

/-- What a turn over ledgers that verifies a transaction has found and done: the block has a receipt,
the issuer's domain was confirmed and charged, what was used was counted, and the block's receipt was
handed out. -/
structure Verified (S : NodeServices) (st : BlockState LedgerFlow) (t : PoolTransaction)
    (blockReceipt : CReceipt) (processed : Processed) (l : Ledger) : Prop where
  listed : st.proposal.getReceiptForTransaction (S.getHash t.toCTransaction) = some blockReceipt
  processes : processOver S st.manager.current t st.proposal.keyHeight blockReceipt.mGUID
    (some blockReceipt) (some st.proposal) false false = .ok processed
  sameID : memcmpEq processed.receipt.mVerifiableID (S.getHash t.toCTransaction) 32 = .ok true
  confirmed : processed.confirmedDomainID ≠ []
  charged : LedgerFlow.chargeOver S (processed.base st.manager.current) processed.transaction
    (includedReceipt processed.receipt) blockReceipt.mGUID false st.proposal
    processed.confirmedDomainID = .ok (some l)

/-- The state that such a turn leaves, within the limits. -/
def verifiedState (S : NodeServices) (st : BlockState LedgerFlow) (blockReceipt : CReceipt)
    (processed : Processed) (l : Ledger) : BlockState LedgerFlow :=
  let counted := st.tally S processed.transaction processed.receipt
  { counted with
    manager := { st.manager with own := [], current := l }
    receipts := st.receipts ++ [blockReceipt]
    countOfDomains := st.countOfDomains + 1
    issuersWithSuccessfulTx := st.issuersWithSuccessfulTx ++ [processed.confirmedDomainID] }

/-- Verification against a block without a checkpoint looks at the receipt of the transaction alone. -/
theorem effectiveReceipt_verified (hverify : mode.verifyAgainstBlock = true)
    (receipt blockReceipt : CReceipt) :
    effectiveReceipt mode receipt blockReceipt false false = includedReceipt receipt := by
  rw [effectiveReceipt, if_neg (by decide), if_pos hverify, includedReceipt]

/-- The marks at the end of a turn that verifies. -/
def verifiedMarks (mode : ProcessingMode) (processed : Processed) : PoolTransaction :=
  finalMarks mode (failureMarks mode processed.transaction (includedReceipt processed.receipt))
    (includedReceipt processed.receipt)

/-- The limits read the counters and what the transaction used, not its marks. -/
theorem withinLimits_verified (st : BlockState LedgerFlow) (blockReceipt : CReceipt)
    (processed : Processed) (l : Ledger) {st' : BlockState LedgerFlow}
    (hsize : st'.mUtilizedBlockSize = st.mUtilizedBlockSize)
    (hERG : st'.mUtilizedERG = st.mUtilizedERG) :
    withinLimits S (st'.tally S
        (failureMarks mode processed.transaction (includedReceipt processed.receipt))
        (includedReceipt processed.receipt)) =
      withinLimits S (verifiedState S st blockReceipt processed l) := by
  unfold withinLimits verifiedState BlockState.tally
  rw [failureMarks_toCTransaction, hsize, hERG]
  rfl

/-- The count of a transaction that verification includes. -/
theorem countTransaction_verified {M : Type} (hverify : mode.verifyAgainstBlock = true)
    (stepBack : M → Except ProcessFault M) (st : BlockState M) (t : PoolTransaction)
    (blockReceipt receipt : CReceipt) :
    countTransaction S mode stepBack st t blockReceipt receipt =
      if withinLimits S (st.tally S t receipt) then
        .ok ⟨.proceed, finalMarks mode t receipt, receipt,
          { st.tally S t receipt with receipts := st.receipts ++ [blockReceipt] }⟩
      else .ok ⟨.reject, t, receipt, st.tally S t receipt⟩ := by
  rw [countTransaction, if_pos (Or.inr hverify), recordTransaction, if_pos hverify,
    if_pos hverify]
  rfl

theorem rollsBack_includedReceipt (receipt : CReceipt) (enforceFailure : Bool) :
    rollsBack (includedReceipt receipt) enforceFailure = rollsBack receipt enforceFailure := rfl

theorem process_existing {f : LedgerFlow} {t : PoolTransaction} {keyHeight : UInt64}
    {receiptID : Bytes} {existingReceipt : Option CReceipt} {block : CBlockProposal}
    {excuseERGusage enforceFailure : Bool} :
    f.process S t keyHeight receiptID existingReceipt (some block) excuseERGusage enforceFailure =
      match processOver S f.current t keyHeight receiptID existingReceipt (some block)
          excuseERGusage enforceFailure with
      | .error e => .error e
      | .ok processed => .ok (processed, f.after processed) := by
  rw [LedgerFlow.process, if_neg fun h => nomatch h.1]
  rfl

/-- The turn once the receipt of the block is found. -/
theorem processTurn_listed (hverify : mode.verifyAgainstBlock = true)
    {st : BlockState LedgerFlow} (hckpt : st.proposal.isCheckpointed = false) {t : PoolTransaction}
    {blockReceipt : CReceipt}
    (hlisted : st.proposal.getReceiptForTransaction (S.getHash t.toCTransaction) =
      some blockReceipt) :
    processTurn S mode (LedgerFlow.calls S) st t =
      match processOver S st.manager.current t st.proposal.keyHeight blockReceipt.mGUID
          (some blockReceipt) (some st.proposal) false false with
      | .error e => .error e
      | .ok processed =>
          match turnAfter S mode (LedgerFlow.calls S) { st with manager := st.manager.after processed }
              (S.getHash t.toCTransaction) blockReceipt processed with
          | .error e => .error e
          | .ok turn => .ok (turn.ending, turn.transaction,
              { turn.state with manager := turn.state.manager.finish turn.receipt }) := by
  have hreceipt : blockReceiptFor mode st (S.getHash t.toCTransaction) = some blockReceipt := by
    rw [blockReceiptFor, if_pos hverify, hlisted]
  have hid : receiptIDFor S mode blockReceipt (S.getHash t.toCTransaction) = blockReceipt.mGUID :=
    if_pos hverify
  unfold processTurn
  dsimp only
  rw [hreceipt]
  dsimp only
  rw [hid, if_pos hverify, if_pos hverify, excusesERG_eq_false hckpt, enforcesFailure_eq_false hckpt,
    show (LedgerFlow.calls S).processTransaction st.manager (S.getHash t.toCTransaction) t
      st.proposal.keyHeight blockReceipt.mGUID (some blockReceipt) (some st.proposal) false false =
        st.manager.process S t st.proposal.keyHeight blockReceipt.mGUID (some blockReceipt)
          (some st.proposal) false false from rfl,
    process_existing]
  cases processOver S st.manager.current t st.proposal.keyHeight blockReceipt.mGUID
      (some blockReceipt) (some st.proposal) false false with
  | error e => rfl
  | ok processed =>
      dsimp only
      cases turnAfter S mode (LedgerFlow.calls S) { st with manager := st.manager.after processed }
          (S.getHash t.toCTransaction) blockReceipt processed with
      | error e => rfl
      | ok turn => rfl

/-- A transaction that does not reject a block without a checkpoint has the right ID, and its domain was
confirmed. -/
theorem confirmed_of_turnAfter (hverify : mode.verifyAgainstBlock = true)
    {st : BlockState LedgerFlow} (hckpt : st.proposal.isCheckpointed = false) {transID : Bytes}
    {blockReceipt : CReceipt} {t : PoolTransaction} {processed : Processed}
    (hprocess : processOver S st.manager.current t st.proposal.keyHeight blockReceipt.mGUID
      (some blockReceipt) (some st.proposal) false false = .ok processed) {turn : Turn LedgerFlow}
    (hafter : turnAfter S mode (LedgerFlow.calls S)
      { st with manager := st.manager.after processed } transID blockReceipt processed = .ok turn)
    (hending : turn.ending ≠ .reject) :
    memcmpEq processed.receipt.mVerifiableID transID 32 = .ok true ∧
      processed.confirmedDomainID ≠ [] := by
  have hsame : (effectiveReceipt mode processed.receipt blockReceipt false false).mVerifiableID =
      processed.receipt.mVerifiableID := rfl
  unfold turnAfter at hafter
  dsimp only at hafter
  rw [excusesERG_eq_false hckpt, enforcesFailure_eq_false hckpt, hsame] at hafter
  cases hid : memcmpEq processed.receipt.mVerifiableID transID 32 with
  | error e =>
      rw [hid] at hafter
      cases hafter
  | ok same =>
      rw [hid] at hafter
      cases same with
      | false =>
          obtain rfl := Except.ok.inj hafter
          exact absurd rfl hending
      | true =>
          refine ⟨rfl, fun hnone => ?_⟩
          have hresult : processed.receipt.mResult ≠ .valid := by
            rcases processOver_cases hprocess with ⟨-, hresult, -⟩ | ⟨_, hsome, -⟩
            · exact hresult
            · exact absurd hnone hsome
          dsimp only at hafter
          rw [settleTransaction, if_neg fun h => h.2 hnone,
            if_pos ⟨hresult, hverify, hckpt⟩] at hafter
          obtain rfl := Except.ok.inj hafter
          exact hending rfl

/-- The turn behind the comparison of the IDs, for a confirmed domain. -/
theorem turnAfter_confirmed (hverify : mode.verifyAgainstBlock = true)
    {st : BlockState LedgerFlow} (hckpt : st.proposal.isCheckpointed = false) {transID : Bytes}
    {blockReceipt : CReceipt} {processed : Processed}
    (hid : memcmpEq processed.receipt.mVerifiableID transID 32 = .ok true)
    (hconfirmed : processed.confirmedDomainID ≠ []) :
    turnAfter S mode (LedgerFlow.calls S) { st with manager := st.manager.after processed }
        transID blockReceipt processed =
      match (st.manager.after processed).charge S processed.transaction
          (includedReceipt processed.receipt) blockReceipt.mGUID false st.proposal
          processed.confirmedDomainID with
      | .error e => .error e
      | .ok charged =>
          afterCharge S mode (LedgerFlow.calls S).stepBack
            { st with manager := st.manager.after processed }
            (failureMarks mode processed.transaction (includedReceipt processed.receipt))
            blockReceipt (includedReceipt processed.receipt) processed.confirmedDomainID charged := by
  have hreceiptID : receiptIDFor S mode blockReceipt transID = blockReceipt.mGUID := if_pos hverify
  unfold turnAfter
  dsimp only
  rw [excusesERG_eq_false hckpt, enforcesFailure_eq_false hckpt,
    effectiveReceipt_verified hverify, hreceiptID]
  have hsame : memcmpEq (includedReceipt processed.receipt).mVerifiableID transID 32 = .ok true := hid
  rw [hsame]
  dsimp only
  rw [settleTransaction, if_pos ⟨rfl, hconfirmed⟩]
  have hcharge : (LedgerFlow.calls S).chargeIssuer (st.manager.after processed)
      processed.transaction (includedReceipt processed.receipt) blockReceipt.mGUID false st.proposal
      processed.confirmedDomainID =
        (st.manager.after processed).charge S processed.transaction
          (includedReceipt processed.receipt) blockReceipt.mGUID false st.proposal
          processed.confirmedDomainID := rfl
  rw [hcharge]
  cases (st.manager.after processed).charge S processed.transaction
      (includedReceipt processed.receipt) blockReceipt.mGUID false st.proposal
      processed.confirmedDomainID with
  | error e => rfl
  | ok charged => rfl

/-- The outcome of charging decides the turn: without an error the block is rejected, unless the
issuer pays and the limits hold. -/
theorem turnAfter_charged (hverify : mode.verifyAgainstBlock = true)
    {st : BlockState LedgerFlow} (hckpt : st.proposal.isCheckpointed = false) {transID : Bytes}
    {blockReceipt : CReceipt} {processed : Processed}
    (hid : memcmpEq processed.receipt.mVerifiableID transID 32 = .ok true)
    (hconfirmed : processed.confirmedDomainID ≠ []) {turn : Turn LedgerFlow}
    (hturn : turnAfter S mode (LedgerFlow.calls S)
      { st with manager := st.manager.after processed } transID blockReceipt processed = .ok turn) :
    turn.ending = .reject ∨ ∃ l,
      LedgerFlow.chargeOver S (processed.base st.manager.current) processed.transaction
        (includedReceipt processed.receipt) blockReceipt.mGUID false st.proposal
        processed.confirmedDomainID = .ok (some l) ∧
      withinLimits S (verifiedState S st blockReceipt processed l) = true := by
  rw [turnAfter_confirmed hverify hckpt hid hconfirmed, LedgerFlow.charge_eq _ st.manager.current rfl,
    rollsBack_includedReceipt] at hturn
  have hbase : (st.manager.after processed).current =
      processed.changed.getD st.manager.current := rfl
  rw [hbase, ← Processed.base] at hturn
  cases hcharge : LedgerFlow.chargeOver S (processed.base st.manager.current) processed.transaction
      (includedReceipt processed.receipt) blockReceipt.mGUID false st.proposal
      processed.confirmedDomainID with
  | error e =>
      rw [hcharge] at hturn
      cases hturn
  | ok charged =>
      rw [hcharge] at hturn
      cases charged with
      | none =>
          dsimp only at hturn
          rw [afterCharge, if_neg Bool.false_ne_true, if_pos hverify] at hturn
          exact Or.inl (congrArg Turn.ending (Except.ok.inj hturn)).symm
      | some l =>
          dsimp only at hturn
          rw [afterCharge, if_pos rfl, countTransaction_verified hverify,
            withinLimits_verified st blockReceipt processed l] at hturn
          · by_cases hlimits : withinLimits S (verifiedState S st blockReceipt processed l) = true
            · exact Or.inr ⟨l, rfl, hlimits⟩
            · rw [if_neg hlimits] at hturn
              exact Or.inl (congrArg Turn.ending (Except.ok.inj hturn)).symm
          · rfl
          · rfl

/-- A turn that verifies a transaction within the limits goes on with the next one. -/
theorem Verified.turn (hverify : mode.verifyAgainstBlock = true) {st : BlockState LedgerFlow}
    (hckpt : st.proposal.isCheckpointed = false) {t : PoolTransaction}
    {blockReceipt : CReceipt} {processed : Processed} {l : Ledger}
    (hverified : Verified S st t blockReceipt processed l)
    (hwithin : withinLimits S (verifiedState S st blockReceipt processed l) = true) :
    processTurn S mode (LedgerFlow.calls S) st t =
      .ok (.proceed, verifiedMarks mode processed, verifiedState S st blockReceipt processed l) := by
  have hbase : (st.manager.after processed).current =
      processed.changed.getD st.manager.current := rfl
  rw [processTurn_listed hverify hckpt hverified.listed, hverified.processes]
  dsimp only
  rw [turnAfter_confirmed hverify hckpt hverified.sameID hverified.confirmed,
    LedgerFlow.charge_eq _ st.manager.current rfl, rollsBack_includedReceipt, hbase, ← Processed.base,
    hverified.charged]
  dsimp only
  rw [afterCharge, if_pos rfl, countTransaction_verified hverify,
    withinLimits_verified st blockReceipt processed l, if_pos hwithin]
  · dsimp only
    unfold verifiedState verifiedMarks BlockState.tally LedgerFlow.finish
    rw [failureMarks_toCTransaction]
    rfl
  · rfl
  · rfl

/-- A turn that does not reject the block has verified the transaction. -/
theorem verified_of_turn (hverify : mode.verifyAgainstBlock = true) {st : BlockState LedgerFlow}
    (hckpt : st.proposal.isCheckpointed = false) {t : PoolTransaction}
    {result : TurnEnd × PoolTransaction × BlockState LedgerFlow}
    (hturn : processTurn S mode (LedgerFlow.calls S) st t = .ok result)
    (hgoes : result.1 ≠ .reject) :
    ∃ blockReceipt processed l, Verified S st t blockReceipt processed l ∧
      withinLimits S (verifiedState S st blockReceipt processed l) = true ∧
      result = (.proceed, verifiedMarks mode processed,
        verifiedState S st blockReceipt processed l) := by
  cases hlisted : st.proposal.getReceiptForTransaction (S.getHash t.toCTransaction) with
  | none =>
      have hreceipt : blockReceiptFor mode st (S.getHash t.toCTransaction) = none := by
        rw [blockReceiptFor, if_pos hverify, hlisted]
      unfold processTurn at hturn
      dsimp only at hturn
      rw [hreceipt] at hturn
      obtain rfl := Except.ok.inj hturn
      exact absurd rfl hgoes
  | some blockReceipt =>
      cases hprocess : processOver S st.manager.current t st.proposal.keyHeight blockReceipt.mGUID
          (some blockReceipt) (some st.proposal) false false with
      | error e =>
          rw [processTurn_listed hverify hckpt hlisted, hprocess] at hturn
          cases hturn
      | ok processed =>
          have hturn' := hturn
          rw [processTurn_listed hverify hckpt hlisted, hprocess] at hturn'
          dsimp only at hturn'
          cases hafter : turnAfter S mode (LedgerFlow.calls S)
              { st with manager := st.manager.after processed } (S.getHash t.toCTransaction)
              blockReceipt processed with
          | error e =>
              rw [hafter] at hturn'
              cases hturn'
          | ok turn =>
              rw [hafter] at hturn'
              have hending : turn.ending ≠ .reject := by
                obtain rfl := Except.ok.inj hturn'
                exact hgoes
              obtain ⟨hid, hconfirmed⟩ := confirmed_of_turnAfter hverify hckpt hprocess hafter hending
              obtain ⟨l, hcharged, hwithin⟩ :=
                (turnAfter_charged hverify hckpt hid hconfirmed hafter).resolve_left hending
              have hverified : Verified S st t blockReceipt processed l :=
                ⟨hlisted, hprocess, hid, hconfirmed, hcharged⟩
              refine ⟨blockReceipt, processed, l, hverified, hwithin, ?_⟩
              exact Except.ok.inj (hturn.symm.trans (hverified.turn hverify hckpt hwithin))

end Turn

/-! ### An accepted block -/

section Run

variable {S : NodeServices} {DB : Type} {T : LedgerTrie DB} {mode : ProcessingMode}

/-- A turn of the manager that has verified its transaction, as a turn over ledgers. -/
def VerifiedTurn (S : NodeServices) (T : LedgerTrie DB)
    (turn : BlockTurn (TransactionManager DB)) : Prop :=
  ∃ f blockReceipt processed l, turn.before.manager.Holds T f ∧
    Verified S (turn.before.over f) turn.transaction blockReceipt processed l ∧
    turn.after.manager.Holds T { f with own := [], current := l } ∧
    turn.after = (verifiedState S (turn.before.over f) blockReceipt processed l).over
      turn.after.manager

theorem VerifiedTurn.holds {turn : BlockTurn (TransactionManager DB)}
    (hverified : VerifiedTurn S T turn) : ∃ f, turn.after.manager.Holds T f := by
  obtain ⟨f, blockReceipt, processed, l, -, -, hholds, -⟩ := hverified
  exact ⟨_, hholds⟩

theorem VerifiedTurn.proposal {turn : BlockTurn (TransactionManager DB)}
    (hverified : VerifiedTurn S T turn) : turn.after.proposal = turn.before.proposal := by
  obtain ⟨f, blockReceipt, processed, l, -, -, -, hafter⟩ := hverified
  rw [hafter]
  rfl

theorem VerifiedTurn.count {turn : BlockTurn (TransactionManager DB)}
    (hverified : VerifiedTurn S T turn) :
    turn.after.countOfDomains = turn.before.countOfDomains + 1 := by
  obtain ⟨f, blockReceipt, processed, l, -, -, -, hafter⟩ := hverified
  rw [hafter]
  rfl

/-- A turn of the manager that does not reject the block goes on, and has verified the transaction. -/
theorem verifiedTurn_of_turn (hT : T.Documented) (hverify : mode.verifyAgainstBlock = true)
    {st : BlockState (TransactionManager DB)} (hckpt : st.proposal.isCheckpointed = false)
    {f : LedgerFlow} (hholds : st.manager.Holds T f) {t t' : PoolTransaction} {ending : TurnEnd}
    {st' : BlockState (TransactionManager DB)}
    (hturn : processTurn S mode (managerCalls S T) st t = .ok (ending, t', st'))
    (hgoes : ending ≠ .reject) : VerifiedTurn S T ⟨st, t, ending, st'⟩ := by
  obtain ⟨⟨ending', t'', sf⟩, hturn', hend, -, hstate⟩ :=
    (processTurn_alike S mode hT hholds t).ok_of_eq hturn
  dsimp only at hend hstate
  subst hend
  obtain ⟨blockReceipt, processed, l, hverified, -, hresult⟩ :=
    verified_of_turn hverify hckpt hturn' hgoes
  obtain ⟨-, hrest⟩ := Prod.mk.inj hresult
  obtain ⟨-, hsf⟩ := Prod.mk.inj hrest
  obtain ⟨hover, hholds'⟩ := hstate hgoes
  have hmanager : sf.manager = { f with own := [], current := l } := by
    rw [hsf]
    rfl
  refine ⟨f, blockReceipt, processed, l, hholds, hverified, hmanager ▸ hholds', ?_⟩
  rw [← hsf, hover]
  rfl

/-- What the turns of a run that verifies have done. -/
structure VerifiedRun (S : NodeServices) (T : LedgerTrie DB) (ts : List PoolTransaction)
    (st : BlockState (TransactionManager DB)) (turns : List (BlockTurn (TransactionManager DB)))
    (st' : BlockState (TransactionManager DB)) : Prop where
  verified : ∀ turn ∈ turns, VerifiedTurn S T turn
  proposals : ∀ turn ∈ turns, turn.before.proposal = st.proposal
  linked : Linked st turns st'
  sublist : (turns.map BlockTurn.transaction).Sublist ts
  count : st'.countOfDomains = st.countOfDomains + turns.length
  proposal : st'.proposal = st.proposal

theorem Linked.count {st st' : BlockState (TransactionManager DB)}
    {turns : List (BlockTurn (TransactionManager DB))} (hlinked : Linked st turns st')
    (hverified : ∀ turn ∈ turns, VerifiedTurn S T turn) :
    st'.countOfDomains = st.countOfDomains + turns.length := by
  induction turns generalizing st with
  | nil =>
      obtain rfl : st = st' := hlinked
      rfl
  | cons turn turns ih =>
      obtain ⟨rfl, hrest⟩ := hlinked
      have hcount := (hverified turn List.mem_cons_self).count
      rw [ih hrest fun x hx => hverified x (List.mem_cons_of_mem _ hx), hcount, List.length_cons]
      omega

/-- Turns that do not reject the block have verified their transactions. -/
theorem Linked.verified (hT : T.Documented) (hverify : mode.verifyAgainstBlock = true)
    {ts : List PoolTransaction} {st st' : BlockState (TransactionManager DB)}
    {turns : List (BlockTurn (TransactionManager DB))} (hlinked : Linked st turns st')
    (hckpt : st.proposal.isCheckpointed = false) {f : LedgerFlow} (hholds : st.manager.Holds T f)
    (hsteps : ∀ turn ∈ turns, ∃ t, processTurn S mode (managerCalls S T) turn.before
      turn.transaction = .ok (turn.ending, t, turn.after))
    (hgoes : ∀ turn ∈ turns, turn.ending ≠ .reject)
    (hsublist : (turns.map BlockTurn.transaction).Sublist ts) : VerifiedRun S T ts st turns st' := by
  have hverified : ∀ turn ∈ turns,
      (∃ f, turn.before.manager.Holds T f) ∧ turn.before.proposal = st.proposal →
        VerifiedTurn S T turn := by
    rintro turn hmem ⟨⟨f, hholds⟩, hproposal⟩
    obtain ⟨t, hturn⟩ := hsteps turn hmem
    exact verifiedTurn_of_turn hT hverify (hproposal ▸ hckpt) hholds hturn (hgoes turn hmem)
  obtain ⟨⟨-, hproposal⟩, hturns⟩ := hlinked.keeps
    (I := fun st' => (∃ f, st'.manager.Holds T f) ∧ st'.proposal = st.proposal)
    ⟨⟨f, hholds⟩, rfl⟩ fun turn hmem hbefore =>
      ⟨(hverified turn hmem hbefore).holds, (hverified turn hmem hbefore).proposal.trans hbefore.2⟩
  have hall := fun turn hmem => hverified turn hmem (hturns turn hmem)
  exact
    { verified := hall
      proposals := fun turn hmem => (hturns turn hmem).2
      linked := hlinked
      sublist := hsublist
      count := hlinked.count hall
      proposal := hproposal }

/-- A block without a checkpoint that was verified over a flow, and accepted. -/
structure AcceptedBlock (S : NodeServices) {DB : Type} (T : LedgerTrie DB) where
  mode : ProcessingMode
  running : ℕ → Bool
  transactions : List PoolTransaction
  unprocessed : List PoolTransaction
  start : BlockState (TransactionManager DB)
  marked : List PoolTransaction
  finish : BlockState (TransactionManager DB)
  verifies : mode.verifyAgainstBlock = true
  notCheckpointed : start.proposal.isCheckpointed = false
  listed : transactions.map PoolTransaction.toCTransaction = start.proposal.transactions
  ready : start.manager.Ready T
  accepted : processTransactions S mode (managerCalls S T) running transactions unprocessed start =
    .ok (true, marked, finish)

namespace AcceptedBlock

/-- The turns in which the block was verified. -/
def turns (b : AcceptedBlock S T) : List (BlockTurn (TransactionManager DB)) :=
  mainTurns S b.mode (managerCalls S T) b.running b.transactions b.start

theorem start_holds (b : AcceptedBlock S T) :
    b.start.manager.Holds T
      ⟨b.start.manager.mInFlowInterDBs.map T.domains, [], b.start.manager.ledger T⟩ :=
  ⟨b.ready, rfl, rfl, rfl⟩

/-- An accepted block had a turn for every transaction, and each turn has verified its transaction. -/
theorem verifiedRun (hT : T.Documented) (b : AcceptedBlock S T) :
    b.turns.map BlockTurn.transaction = b.transactions ∧
      ∃ st, VerifiedRun S T b.transactions b.start.begun b.turns st ∧
        st.manager = b.finish.manager := by
  have hmode : b.mode.addToBlock ≠ b.mode.verifyAgainstBlock := by
    intro hmode
    have haccepted := b.accepted
    rw [processTransactions, if_pos hmode] at haccepted
    cases haccepted
  have hckpt : b.start.begun.proposal.isCheckpointed = false := b.notCheckpointed
  have hholds : b.start.begun.manager.Holds T _ := b.start_holds
  by_cases hempty : b.transactions = []
  · have haccepted := b.accepted
    rw [processTransactions, if_neg hmode, if_pos hempty] at haccepted
    have hsame : b.start.manager = b.finish.manager :=
      congrArg (fun x => x.2.2.manager) (Except.ok.inj haccepted)
    have hnone : b.turns = [] := by rw [turns, mainTurns, if_neg hmode, hempty, turnsOf]
    have hlinked : Linked b.start.begun b.turns b.start.begun := by
      rw [hnone]
      rfl
    refine ⟨by rw [hnone, hempty]; rfl, b.start.begun, ?_, hsame⟩
    exact hlinked.verified hT b.verifies hckpt hholds (fun turn hmem => mainTurns_step hmem)
      (fun turn hmem => by rw [hnone] at hmem; cases hmem) (mainTurns_sublist _)
  have hretry : retryTurns S b.mode (managerCalls S T) b.running b.transactions b.unprocessed
      b.start = [] := by
    unfold retryTurns
    rw [if_neg hmode, b.verifies]
    split
    · rw [if_neg fun h => nomatch h.1]
    · rfl
  rcases processTransactions_linked hmode hempty b.accepted with ⟨hfalse, -⟩ |
    ⟨hgoes, hlinked, hagrees⟩
  · cases hfalse
  rw [hretry, List.append_nil] at hlinked
  have hrun : VerifiedRun S T b.transactions b.start.begun b.turns b.finish :=
    hlinked.verified hT b.verifies hckpt hholds (fun turn hmem => mainTurns_step hmem) hgoes
      (mainTurns_sublist _)
  have hcount : b.finish.countOfDomains = b.finish.proposal.transactions.length := by
    refine (of_decide_eq_true hagrees.symm).resolve_right fun hckpt => ?_
    rw [hrun.proposal] at hckpt
    exact Bool.noConfusion (b.notCheckpointed.symm.trans hckpt)
  refine ⟨hrun.sublist.eq_of_length ?_, b.finish, hrun, rfl⟩
  calc
    (b.turns.map BlockTurn.transaction).length = b.turns.length := List.length_map _
    _ = b.finish.countOfDomains := by
      rw [hrun.count]
      exact (Nat.zero_add _).symm
    _ = b.start.proposal.transactions.length := by
      rw [hcount, hrun.proposal]
      rfl
    _ = b.transactions.length := by rw [← b.listed, List.length_map]

end AcceptedBlock

end Run

end Gridnet
