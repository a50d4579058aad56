import Gridnet.BlockRuns
import Gridnet.TurnRefinement
import Gridnet.Verdicts

/-! Formation of a block without a checkpoint, over ledgers: all that a turn of the first loop can do,
and all that a turn of the second loop can do. -/

namespace Gridnet

open TransactionManager

section Turn

variable (S : NodeServices)

/-- What a new transaction is charged, once it was processed. -/
def chargeFor (st : BlockState LedgerFlow) (t : PoolTransaction) (processed : Processed) :
    Except ProcessFault (Option Ledger) :=
  LedgerFlow.chargeOver S (processed.base st.manager.current) t processed.receipt
    (poolReceiptID S (S.getHash t.toCTransaction)) false st.proposal processed.confirmedDomainID

/-- The state with a transaction counted, and added to the block with its receipt. -/
def addedState {M : Type} (st : BlockState M) (t : PoolTransaction) (receipt : CReceipt) :
    BlockState M :=
  { st.tally S t receipt with
    proposal := { st.proposal with transactions := st.proposal.transactions ++ [t.toCTransaction] }
    receipts := st.receipts ++ [receipt] }

/-- The same for one of a confirmed domain, which has paid. -/
def includedState (st : BlockState LedgerFlow) (t : PoolTransaction) (processed : Processed)
    (l : Ledger) : BlockState LedgerFlow :=
  { addedState S st t processed.receipt with
    manager := { st.manager with current := l }
    countOfDomains := st.countOfDomains + 1
    issuersWithSuccessfulTx := st.issuersWithSuccessfulTx ++ [processed.confirmedDomainID] }

/-- All that a turn of the first loop can do when a block is formed. A transaction that takes the block
over its limits is taken back with one step; if what it did was rolled back already, the step goes
into the ledgers below. -/
inductive FormationOutcome (st : BlockState LedgerFlow) (t : PoolTransaction)
    (processed : Processed) : TurnEnd → BlockState LedgerFlow → Prop
  | refused (hdiscard : processed.receipt.doNotIncludeInChain = true) :
      FormationOutcome st t processed .proceed st
  | unpaid (hkept : processed.receipt.doNotIncludeInChain = false)
      (hconfirmed : processed.confirmedDomainID ≠ [])
      (hcharged : chargeFor S st t processed = .ok none) :
      FormationOutcome st t processed .proceed st
  | unconfirmed (hkept : processed.receipt.doNotIncludeInChain = false)
      (hconfirmed : processed.confirmedDomainID = [])
      (hwithin : withinLimits S (st.tally S t processed.receipt) = true) :
      FormationOutcome st t processed .proceed (addedState S st t processed.receipt)
  | included {l : Ledger} (hkept : processed.receipt.doNotIncludeInChain = false)
      (hconfirmed : processed.confirmedDomainID ≠ [])
      (hcharged : chargeFor S st t processed = .ok (some l))
      (hwithin : withinLimits S (st.tally S t processed.receipt) = true) :
      FormationOutcome st t processed .proceed (includedState S st t processed l)
  | overflow (countOfDomains : ℕ) (issuersWithSuccessfulTx : List Bytes)
      (hkept : processed.receipt.doNotIncludeInChain = false)
      (hbase : processed.confirmedDomainID = [] ∨ rollsBack processed.receipt false = false)
      (hwithin : withinLimits S (st.tally S t processed.receipt) = false) :
      FormationOutcome st t processed .leaveLoop { st with countOfDomains, issuersWithSuccessfulTx }
  | overflowRolledBack (countOfDomains : ℕ) (issuersWithSuccessfulTx : List Bytes) {l l' : Ledger}
      (hkept : processed.receipt.doNotIncludeInChain = false)
      (hconfirmed : processed.confirmedDomainID ≠ [])
      (hcharged : chargeFor S st t processed = .ok (some l))
      (hrolled : rollsBack processed.receipt false = true)
      (hwithin : withinLimits S (st.tally S t processed.receipt) = false)
      (hbelow : st.manager.older.getLast? = some l') :
      FormationOutcome st t processed .leaveLoop
        { st with
          manager := { st.manager with older := st.manager.older.dropLast, current := l' }
          countOfDomains
          issuersWithSuccessfulTx }

variable {S} {mode : ProcessingMode} {st st' : BlockState LedgerFlow} {t t' : PoolTransaction}
  {processed : Processed} {ending : TurnEnd}

/-- A block that is formed has no receipts yet, and leaves its transactions as they are processed. -/
theorem effectiveReceipt_forming (hverify : mode.verifyAgainstBlock = false) (receipt : CReceipt) :
    effectiveReceipt mode receipt {} false false = receipt := by
  rw [effectiveReceipt, if_neg (by decide), hverify, if_neg Bool.false_ne_true]

/-- How a formation turn starts: with a limit that is not below the minimum, and with processing. -/
theorem processTurn_forming (hverify : mode.verifyAgainstBlock = false)
    (hckpt : st.proposal.isCheckpointed = false)
    (hturn : processTurn S mode (LedgerFlow.calls S) st t = .ok (ending, t', st')) :
    ∃ processed turn, ¬ t.mErgLimit < S.getMinERGLimit ∧
      processOver S st.manager.current t st.proposal.keyHeight
        (poolReceiptID S (S.getHash t.toCTransaction)) none none false false = .ok processed ∧
      memcmpEq processed.receipt.mVerifiableID (S.getHash t.toCTransaction) 32 = .ok true ∧
      settleTransaction S mode (LedgerFlow.calls S)
        { st with manager := st.manager.after processed } processed.transaction {} processed.receipt
        (poolReceiptID S (S.getHash t.toCTransaction)) false processed.confirmedDomainID = .ok turn ∧
      ending = turn.ending ∧
      st' = { turn.state with manager := turn.state.manager.finish turn.receipt } := by
  have hreceipt : blockReceiptFor mode st (S.getHash t.toCTransaction) = some {} := by
    rw [blockReceiptFor, hverify, if_neg Bool.false_ne_true]
  have hid : receiptIDFor S mode {} (S.getHash t.toCTransaction) =
      poolReceiptID S (S.getHash t.toCTransaction) := by
    rw [receiptIDFor, hverify, if_neg Bool.false_ne_true]
  have hexcuse : excusesERG st.proposal {} = false := excusesERG_eq_false hckpt {}
  have henforce : enforcesFailure st.proposal {} = false := enforcesFailure_eq_false hckpt {}
  have hcall : (LedgerFlow.calls S).processTransaction st.manager (S.getHash t.toCTransaction) t
      st.proposal.keyHeight (poolReceiptID S (S.getHash t.toCTransaction)) none none false false =
        st.manager.process S t st.proposal.keyHeight
          (poolReceiptID S (S.getHash t.toCTransaction)) none none false false := rfl
  unfold processTurn at hturn
  dsimp only at hturn
  rw [hreceipt] at hturn
  dsimp only at hturn
  rw [hid, hverify, if_neg Bool.false_ne_true, if_neg Bool.false_ne_true, hexcuse, henforce, hcall,
    LedgerFlow.process] at hturn
  by_cases hlimit : t.mErgLimit < S.getMinERGLimit
  · rw [if_pos ⟨rfl, hlimit⟩] at hturn
    cases hturn
  rw [if_neg fun h => hlimit h.2] at hturn
  cases hprocess : processOver S st.manager.current t st.proposal.keyHeight
      (poolReceiptID S (S.getHash t.toCTransaction)) none none false false with
  | error e =>
      rw [hprocess] at hturn
      cases hturn
  | ok processed =>
      rw [hprocess] at hturn
      dsimp only at hturn
      unfold turnAfter at hturn
      dsimp only at hturn
      rw [hexcuse, henforce, effectiveReceipt_forming hverify, hid] at hturn
      cases hsame : memcmpEq processed.receipt.mVerifiableID (S.getHash t.toCTransaction) 32 with
      | error e =>
          rw [hsame] at hturn
          cases hturn
      | ok same =>
          cases same with
          | false => exact absurd hsame (memcmpEq_ne_false hprocess)
          | true =>
              rw [hsame] at hturn
              dsimp only at hturn
              cases hsettle : settleTransaction S mode (LedgerFlow.calls S)
                  { st with manager := st.manager.after processed } processed.transaction {}
                  processed.receipt (poolReceiptID S (S.getHash t.toCTransaction)) false
                  processed.confirmedDomainID with
              | error e =>
                  rw [LedgerFlow.after] at hsettle
                  rw [hsettle] at hturn
                  cases hturn
              | ok turn =>
                  rw [LedgerFlow.after] at hsettle
                  rw [hsettle] at hturn
                  cases hturn
                  exact ⟨processed, turn, hlimit, rfl, hsame, hsettle, rfl, rfl⟩

theorem tally_congr {M : Type} {t t' : PoolTransaction}
    (hcode : t.toCTransaction = t'.toCTransaction) (st : BlockState M) (receipt : CReceipt) :
    st.tally S t receipt = st.tally S t' receipt := by
  unfold BlockState.tally
  rw [hcode]

/-- A transaction that is to be part of the block, at the end of a turn that forms it. -/
theorem countTransaction_kept (hverify : mode.verifyAgainstBlock = false)
    (hadd : mode.addToBlock = true) {M : Type} (stepBack : M → Except ProcessFault M)
    (st : BlockState M) {t t₀ : PoolTransaction} (hcode : t.toCTransaction = t₀.toCTransaction)
    (blockReceipt : CReceipt) {receipt : CReceipt} (hkept : receipt.doNotIncludeInChain = false)
    {turn : Turn M} (hcount : countTransaction S mode stepBack st t blockReceipt receipt = .ok turn) :
    turn.receipt = receipt ∧
      ((withinLimits S (st.tally S t₀ receipt) = true ∧ turn.ending = .proceed ∧
        turn.state = addedState S st t₀ receipt) ∨
      withinLimits S (st.tally S t₀ receipt) = false ∧ turn.ending = .leaveLoop ∧
        ∃ m, stepBack st.manager = .ok m ∧
          turn.state = { st with manager := m, countOfDomains := st.countOfDomains - 1 }) := by
  unfold countTransaction at hcount
  rw [if_pos (Or.inl ⟨hkept, hadd⟩), tally_congr hcode] at hcount
  cases hwithin : withinLimits S (st.tally S t₀ receipt) with
  | true =>
      rw [hwithin, if_pos rfl, recordTransaction, hverify, if_neg Bool.false_ne_true,
        if_pos ⟨hkept, hadd⟩] at hcount
      unfold CBlockProposal.addTransaction at hcount
      split at hcount
      · cases hcount
      · rename_i proposal hproposal
        split_ifs at hproposal
        cases hproposal
        cases hcount
        refine ⟨rfl, Or.inl ⟨rfl, rfl, ?_⟩⟩
        rw [addedState, hcode]
        rfl
  | false =>
      rw [hwithin, if_neg Bool.false_ne_true, hverify, if_neg Bool.false_ne_true] at hcount
      cases hback : stepBack st.manager with
      | error e =>
          rw [hback] at hcount
          cases hcount
      | ok m =>
          rw [hback] at hcount
          cases hcount
          exact ⟨rfl, Or.inr ⟨rfl, rfl, m, rfl, rfl⟩⟩

/-- One that is to be left out. -/
theorem countTransaction_discarded (hverify : mode.verifyAgainstBlock = false) {M : Type}
    (stepBack : M → Except ProcessFault M) (st : BlockState M) (t : PoolTransaction)
    (blockReceipt : CReceipt) {receipt : CReceipt}
    (hdiscard : receipt.doNotIncludeInChain = true) :
    countTransaction S mode stepBack st t blockReceipt receipt =
      .ok ⟨.proceed, finalMarks mode t receipt, receipt, st⟩ := by
  have hleft : ¬ (receipt.doNotIncludeInChain = false ∧ mode.addToBlock = true) := by
    rintro ⟨hkept, -⟩
    exact Bool.noConfusion (hkept.symm.trans hdiscard)
  unfold countTransaction
  rw [if_neg (by rw [hverify]; exact fun h => h.elim hleft Bool.false_ne_true), recordTransaction,
    hverify, if_neg Bool.false_ne_true, if_neg hleft]

/-- All that a formation turn can do. -/
theorem formationOutcome_of_turn (hverify : mode.verifyAgainstBlock = false)
    (hadd : mode.addToBlock = true) (hckpt : st.proposal.isCheckpointed = false)
    (hown : st.manager.own = [])
    (hturn : processTurn S mode (LedgerFlow.calls S) st t = .ok (ending, t', st')) :
    ∃ processed, ¬ t.mErgLimit < S.getMinERGLimit ∧
      processOver S st.manager.current t st.proposal.keyHeight
        (poolReceiptID S (S.getHash t.toCTransaction)) none none false false = .ok processed ∧
      memcmpEq processed.receipt.mVerifiableID (S.getHash t.toCTransaction) 32 = .ok true ∧
      FormationOutcome S st t processed ending st' := by
  obtain ⟨processed, turn, hlimit, hprocess, hid, hsettle, rfl, rfl⟩ :=
    processTurn_forming hverify hckpt hturn
  refine ⟨processed, hlimit, hprocess, hid, ?_⟩
  have hcode := processOver_toCTransaction hprocess
  have hflow : { st.manager with own := [] } = st.manager := by rw [← hown]
  unfold settleTransaction at hsettle
  by_cases hcharge : processed.receipt.doNotIncludeInChain = false ∧
      processed.confirmedDomainID ≠ []
  · obtain ⟨hkept, hconfirmed⟩ := hcharge
    have hcall : (LedgerFlow.calls S).chargeIssuer (st.manager.after processed)
        processed.transaction processed.receipt (poolReceiptID S (S.getHash t.toCTransaction)) false
        st.proposal processed.confirmedDomainID =
      (st.manager.after processed).charge S processed.transaction processed.receipt
        (poolReceiptID S (S.getHash t.toCTransaction)) false st.proposal
        processed.confirmedDomainID := rfl
    rw [if_pos ⟨hkept, hconfirmed⟩, hcall, LedgerFlow.charge_eq _ st.manager.current rfl] at hsettle
    have hbase : (st.manager.after processed).current =
        processed.changed.getD st.manager.current := rfl
    rw [hbase, ← Processed.base, LedgerFlow.chargeOver_congr hcode, ← chargeFor] at hsettle
    cases hcharged : chargeFor S st t processed with
    | error e =>
        rw [hcharged] at hsettle
        cases hsettle
    | ok charged =>
        rw [hcharged] at hsettle
        cases charged with
        | none =>
            dsimp only at hsettle
            rw [afterCharge, if_neg Bool.false_ne_true, hverify, if_neg Bool.false_ne_true]
              at hsettle
            cases hsettle
            have hsame : LedgerFlow.finish
                { st.manager.after processed with
                  own := if rollsBack processed.receipt false then []
                    else (st.manager.after processed).own
                  current := processed.base st.manager.current }
                { processed.receipt with mResult := .invalidBalance, doNotIncludeInChain := true } =
                  st.manager := by
              rw [LedgerFlow.finish, if_pos rfl, Processed.base]
              cases rollsBack processed.receipt false with
              | true => exact hflow
              | false => exact hflow
            dsimp only
            rw [hsame]
            exact FormationOutcome.unpaid hkept hconfirmed hcharged
        | some l =>
            dsimp only at hsettle
            rw [afterCharge, if_pos rfl] at hsettle
            obtain ⟨hreceipt, hcount⟩ := countTransaction_kept hverify hadd _ _
              ((failureMarks_toCTransaction _ _).trans hcode) _ hkept hsettle
            have hfinish : ∀ f : LedgerFlow, f.finish turn.receipt = { f with own := [] } := by
              intro f
              rw [hreceipt, LedgerFlow.finish, hkept, if_neg Bool.false_ne_true]
            rcases hcount with ⟨hwithin, hending, hstate⟩ | ⟨hwithin, hending, m, hback, hstate⟩
            · rw [hending, hstate, hfinish]
              have hsame : { st.manager with current := l } =
                  { st.manager with own := [], current := l } := by rw [← hown]
              have hincluded := FormationOutcome.included (S := S) hkept hconfirmed hcharged hwithin
              rw [includedState, hsame] at hincluded
              exact hincluded
            · rw [hending, hstate, hfinish]
              cases hrolled : rollsBack processed.receipt false with
              | false =>
                  rw [hrolled] at hback
                  cases hback
                  exact hflow.symm ▸ FormationOutcome.overflow _ _ hkept (Or.inr hrolled) hwithin
              | true =>
                  rw [hrolled] at hback
                  dsimp only [LedgerFlow.calls, LedgerFlow.stepBack] at hback
                  rw [if_pos rfl, List.getLast?_nil] at hback
                  cases hbelow : st.manager.older.getLast? with
                  | none =>
                      rw [LedgerFlow.after, hbelow] at hback
                      cases hback
                  | some l' =>
                      rw [LedgerFlow.after, hbelow] at hback
                      cases hback
                      have hsame : { st.manager with
                          older := st.manager.older.dropLast, current := l' } =
                          { st.manager with
                            older := st.manager.older.dropLast, own := [], current := l' } := by
                        rw [← hown]
                      have hstep := FormationOutcome.overflowRolledBack (S := S)
                        st.countOfDomains
                        (st.issuersWithSuccessfulTx ++ [processed.confirmedDomainID]) hkept
                        hconfirmed hcharged hrolled hwithin hbelow
                      rw [hsame] at hstep
                      exact hstep
  · rw [if_neg hcharge, hverify, if_neg fun h => Bool.false_ne_true h.2.1] at hsettle
    cases hkept : processed.receipt.doNotIncludeInChain with
    | true =>
        rw [countTransaction_discarded hverify _ _ _ _ hkept] at hsettle
        cases hsettle
        have hsame : (st.manager.after processed).finish processed.receipt = st.manager := by
          rw [LedgerFlow.finish, hkept, if_pos rfl]
          exact hflow
        dsimp only
        rw [hsame]
        exact FormationOutcome.refused hkept
    | false =>
        have hnone : processed.confirmedDomainID = [] :=
          Decidable.not_not.mp fun h => hcharge ⟨hkept, h⟩
        have hchanged : processed.changed = none := by
          rcases processOver_cases hprocess with ⟨-, -, hchanged, -⟩ | ⟨_, hsome, -⟩
          · exact hchanged
          · exact absurd hnone hsome
        have hafter : st.manager.after processed =
            { st.manager with own := [st.manager.current] } := by
          rw [LedgerFlow.after, hchanged]
          rfl
        rw [hafter] at hsettle
        obtain ⟨hreceipt, hcount⟩ := countTransaction_kept hverify hadd _ _ hcode _ hkept hsettle
        have hfinish : ∀ f : LedgerFlow, f.finish turn.receipt = { f with own := [] } := by
          intro f
          rw [hreceipt, LedgerFlow.finish, hkept, if_neg Bool.false_ne_true]
        rcases hcount with ⟨hwithin, hending, hstate⟩ | ⟨hwithin, hending, m, hback, hstate⟩
        · rw [hending, hstate, hfinish]
          have hsame : { addedState S
              { st with manager := { st.manager with own := [st.manager.current] } } t
                processed.receipt with manager := { st.manager with own := [] } } =
              addedState S st t processed.receipt := by
            rw [hflow]
            rfl
          exact hsame ▸ FormationOutcome.unconfirmed hkept hnone hwithin
        · cases hback
          rw [hending, hstate, hfinish]
          exact hflow.symm ▸ FormationOutcome.overflow (st.countOfDomains - 1) _ hkept
            (Or.inl hnone) hwithin

/-- The state that a turn of the second loop leaves that adds its transaction: the domains as the script
left them, and neither nonce nor fee nor counters. -/
def retriedState (st : BlockState LedgerFlow) (t : PoolTransaction) (processed : Processed) :
    BlockState LedgerFlow :=
  { st with
    manager := { st.manager with current := processed.changed.getD st.manager.current }
    proposal := { st.proposal with
      transactions := st.proposal.transactions ++ [t.toCTransaction]
      receipts := st.proposal.receipts ++ [processed.receipt] }
    receipts := st.receipts ++ [processed.receipt]
    countOfDomains := st.countOfDomains + 1 }

/-- All that a turn of the second loop can do: it adds each transaction of a confirmed domain that is not
to be left out. -/
theorem retryOutcome_of_turn (hadd : mode.addToBlock = true) (hown : st.manager.own = [])
    (hturn : retryTurn S mode (LedgerFlow.calls S) st t = .ok (t', st')) :
    ∃ processed, ¬ t.mErgLimit < S.getMinERGLimit ∧
      processOver S st.manager.current t st.proposal.keyHeight
        (poolReceiptID S (S.getHash t.toCTransaction)) none none false false = .ok processed ∧
      ((processed.receipt.doNotIncludeInChain = true ∨ processed.confirmedDomainID = []) ∧ st' = st ∨
        processed.receipt.doNotIncludeInChain = false ∧ processed.confirmedDomainID ≠ [] ∧
          st' = retriedState st t processed) := by
  have hflow : { st.manager with own := [] } = st.manager := by rw [← hown]
  have hstate : { st with manager := { st.manager with own := [] } } = st := by rw [hflow]
  have hcall : (LedgerFlow.calls S).processTransaction st.manager (S.getHash t.toCTransaction) t
      st.proposal.keyHeight (poolReceiptID S (S.getHash t.toCTransaction)) none none false false =
        st.manager.process S t st.proposal.keyHeight
          (poolReceiptID S (S.getHash t.toCTransaction)) none none false false := rfl
  unfold retryTurn at hturn
  dsimp only at hturn
  rw [hcall, LedgerFlow.process] at hturn
  by_cases hlimit : t.mErgLimit < S.getMinERGLimit
  · rw [if_pos ⟨rfl, hlimit⟩] at hturn
    cases hturn
  rw [if_neg fun h => hlimit h.2] at hturn
  cases hprocess : processOver S st.manager.current t st.proposal.keyHeight
      (poolReceiptID S (S.getHash t.toCTransaction)) none none false false with
  | error e =>
      rw [hprocess] at hturn
      cases hturn
  | ok processed =>
      rw [hprocess] at hturn
      refine ⟨processed, hlimit, rfl, ?_⟩
      have hcode := processOver_toCTransaction hprocess
      dsimp only [LedgerFlow.calls, LedgerFlow.finish] at hturn
      cases hkept : processed.receipt.doNotIncludeInChain with
      | true =>
          rw [hkept, if_pos rfl, if_neg fun h => nomatch h.1] at hturn
          cases hturn
          exact Or.inl ⟨Or.inl rfl, hstate⟩
      | false =>
          rw [hkept, if_neg Bool.false_ne_true] at hturn
          by_cases hconfirmed : processed.confirmedDomainID = []
          · have hchanged : processed.changed = none := by
              rcases processOver_cases hprocess with ⟨-, -, hchanged, -⟩ | ⟨_, hsome, -⟩
              · exact hchanged
              · exact absurd hconfirmed hsome
            rw [if_neg fun h => h.2.2 hconfirmed, hchanged] at hturn
            cases hturn
            exact Or.inl ⟨Or.inr hconfirmed, hstate⟩
          · rw [if_pos ⟨rfl, hadd, hconfirmed⟩] at hturn
            unfold CBlockProposal.addTransaction at hturn
            split at hturn
            · cases hturn
            · rename_i proposal hproposal
              split_ifs at hproposal
              cases hproposal
              cases hturn
              refine Or.inr ⟨rfl, hconfirmed, ?_⟩
              have hsame : { st.manager with current := processed.changed.getD st.manager.current } =
                  { st.manager with
                    own := [], current := processed.changed.getD st.manager.current } := by
                rw [← hown]
              rw [retriedState, hsame, ← hcode]

end Turn

/-! ### A block that is formed -/

section Formed

variable {S : NodeServices} {DB : Type} {T : LedgerTrie DB} {mode : ProcessingMode}

theorem FormationOutcome.ending_ne {st st' : BlockState LedgerFlow} {t : PoolTransaction}
    {processed : Processed} {ending : TurnEnd}
    (houtcome : FormationOutcome S st t processed ending st') : ending ≠ .reject := by
  cases houtcome <;> nofun

theorem FormationOutcome.isCheckpointed {st st' : BlockState LedgerFlow} {t : PoolTransaction}
    {processed : Processed} {ending : TurnEnd}
    (houtcome : FormationOutcome S st t processed ending st') :
    st'.proposal.isCheckpointed = st.proposal.isCheckpointed := by
  cases houtcome <;> rfl

/-- What processing a new transaction starts with: a sufficient limit, over the domains of a flow. -/
structure Processes (S : NodeServices) (st : BlockState LedgerFlow) (t : PoolTransaction)
    (processed : Processed) : Prop where
  limit : ¬ t.mErgLimit < S.getMinERGLimit
  processes : processOver S st.manager.current t st.proposal.keyHeight
    (poolReceiptID S (S.getHash t.toCTransaction)) none none false false = .ok processed

/-- A turn of the manager in the first loop, over the ledgers that it holds. -/
def FormationTurn (S : NodeServices) (T : LedgerTrie DB)
    (turn : BlockTurn (TransactionManager DB)) : Prop :=
  ∀ f, turn.before.manager.Holds T f → turn.before.proposal.isCheckpointed = false →
    ∃ processed sf, Processes S (turn.before.over f) turn.transaction processed ∧
      memcmpEq processed.receipt.mVerifiableID (S.getHash turn.transaction.toCTransaction) 32 =
        .ok true ∧
      FormationOutcome S (turn.before.over f) turn.transaction processed turn.ending sf ∧
      turn.after = sf.over turn.after.manager ∧ turn.after.manager.Holds T sf.manager

/-- A turn of the manager in the second loop. -/
def RetryTurn (S : NodeServices) (T : LedgerTrie DB)
    (turn : BlockTurn (TransactionManager DB)) : Prop :=
  ∀ f, turn.before.manager.Holds T f →
    ∃ processed sf, Processes S (turn.before.over f) turn.transaction processed ∧
      ((processed.receipt.doNotIncludeInChain = true ∨ processed.confirmedDomainID = []) ∧
          sf = turn.before.over f ∨
        processed.receipt.doNotIncludeInChain = false ∧ processed.confirmedDomainID ≠ [] ∧
          sf = retriedState (turn.before.over f) turn.transaction processed) ∧
      turn.after = sf.over turn.after.manager ∧ turn.after.manager.Holds T sf.manager

/-- A call that forms a block without a checkpoint, and what it leaves. -/
structure FormedBlock (S : NodeServices) {DB : Type} (T : LedgerTrie DB) where
  mode : ProcessingMode
  running : ℕ → Bool
  transactions : List PoolTransaction
  unprocessed : List PoolTransaction
  start : BlockState (TransactionManager DB)
  answer : Bool
  marked : List PoolTransaction
  finish : BlockState (TransactionManager DB)
  forms : mode.verifyAgainstBlock = false
  adds : mode.addToBlock = true
  notCheckpointed : start.proposal.isCheckpointed = false
  ready : start.manager.Ready T
  formed : processTransactions S mode (managerCalls S T) running transactions unprocessed start =
    .ok (answer, marked, finish)

namespace FormedBlock

/-- The turns of the first loop. -/
def turns (b : FormedBlock S T) : List (BlockTurn (TransactionManager DB)) :=
  mainTurns S b.mode (managerCalls S T) b.running b.transactions b.start

/-- The turns of the second loop. -/
def retries (b : FormedBlock S T) : List (BlockTurn (TransactionManager DB)) :=
  retryTurns S b.mode (managerCalls S T) b.running b.transactions b.unprocessed b.start

theorem formationTurn (hT : T.Documented) (b : FormedBlock S T)
    {turn : BlockTurn (TransactionManager DB)} (hmem : turn ∈ b.turns) : FormationTurn S T turn := by
  intro f hholds hckpt
  obtain ⟨t, hturn⟩ := mainTurns_step hmem
  obtain ⟨⟨ending, t', sf⟩, hturn', hend, -, hstate⟩ :=
    (processTurn_alike S b.mode hT hholds turn.transaction).ok_of_eq hturn
  dsimp only at hend hstate
  subst hend
  obtain ⟨processed, hlimit, hprocess, hid, houtcome⟩ :=
    formationOutcome_of_turn b.forms b.adds hckpt hholds.own hturn'
  obtain ⟨hover, hholds'⟩ := hstate houtcome.ending_ne
  refine ⟨processed, sf, ⟨hlimit, hprocess⟩, hid, houtcome, ?_, hholds'⟩
  rw [hover]
  rfl

theorem retryTurn (hT : T.Documented) (b : FormedBlock S T)
    {turn : BlockTurn (TransactionManager DB)} (hmem : turn ∈ b.retries) : RetryTurn S T turn := by
  intro f hholds
  obtain ⟨t, hturn⟩ := retryTurns_step hmem
  obtain ⟨⟨t', sf⟩, hturn', -, hover, hholds'⟩ :=
    (retryTurn_alike S b.mode hT hholds turn.transaction).ok_of_eq hturn
  obtain ⟨processed, hlimit, hprocess, houtcome⟩ :=
    retryOutcome_of_turn b.adds hholds.own hturn'
  refine ⟨processed, sf, ⟨hlimit, hprocess⟩, houtcome, ?_, hholds'⟩
  dsimp only at hover
  rw [hover]
  rfl

theorem start_holds (b : FormedBlock S T) :
    b.start.manager.Holds T
      ⟨b.start.manager.mInFlowInterDBs.map T.domains, [], b.start.manager.ledger T⟩ :=
  ⟨b.ready, rfl, rfl, rfl⟩

/-- What a turn needs of the state before it, and leaves. -/
def Ongoing (T : LedgerTrie DB) (st : BlockState (TransactionManager DB)) : Prop :=
  st.proposal.isCheckpointed = false ∧ ∃ f, st.manager.Holds T f

theorem start_ongoing (b : FormedBlock S T) : Ongoing T b.start.begun :=
  ⟨b.notCheckpointed, _, b.start_holds⟩

theorem ongoing_of_turn (hT : T.Documented) (b : FormedBlock S T)
    {turn : BlockTurn (TransactionManager DB)} (hmem : turn ∈ b.turns)
    (hbefore : Ongoing T turn.before) : Ongoing T turn.after ∧ turn.ending ≠ .reject := by
  obtain ⟨hckpt, f, hholds⟩ := hbefore
  obtain ⟨processed, sf, -, -, houtcome, hafter, hholds'⟩ := b.formationTurn hT hmem f hholds hckpt
  refine ⟨⟨?_, _, hholds'⟩, houtcome.ending_ne⟩
  rw [hafter]
  exact houtcome.isCheckpointed.trans hckpt

theorem ongoing_of_retry (hT : T.Documented) (b : FormedBlock S T)
    {turn : BlockTurn (TransactionManager DB)} (hmem : turn ∈ b.retries)
    (hbefore : Ongoing T turn.before) : Ongoing T turn.after := by
  obtain ⟨hckpt, f, hholds⟩ := hbefore
  obtain ⟨processed, sf, -, houtcome, hafter, hholds'⟩ := b.retryTurn hT hmem f hholds
  refine ⟨?_, _, hholds'⟩
  rw [hafter]
  rcases houtcome with ⟨-, rfl⟩ | ⟨-, -, rfl⟩
  · exact hckpt
  · exact hckpt

/-- Every turn of either loop keeps what the call needs. -/
theorem ongoing (hT : T.Documented) (b : FormedBlock S T)
    {turn : BlockTurn (TransactionManager DB)} (hmem : turn ∈ b.turns ++ b.retries)
    (hbefore : Ongoing T turn.before) : Ongoing T turn.after := by
  rcases List.mem_append.mp hmem with hmain | hretry
  · exact (b.ongoing_of_turn hT hmain hbefore).1
  · exact b.ongoing_of_retry hT hretry hbefore

theorem finish_of_empty (b : FormedBlock S T) (hempty : b.transactions = []) :
    b.finish = b.start ∧ b.answer = true := by
  have hformed := b.formed
  rw [processTransactions, if_neg (by rw [b.adds, b.forms]; nofun), if_pos hempty] at hformed
  obtain ⟨hanswer, hrest⟩ := Prod.mk.inj (Except.ok.inj hformed)
  exact ⟨(Prod.mk.inj hrest).2.symm, hanswer.symm⟩

/-- The call goes from turn to turn through both loops, and no turn rejects the block. -/
theorem linked (hT : T.Documented) (b : FormedBlock S T) (hne : b.transactions ≠ []) :
    Linked b.start.begun (b.turns ++ b.retries) b.finish ∧ b.answer = countAgrees b.finish := by
  have hmode : b.mode.addToBlock ≠ b.mode.verifyAgainstBlock := by
    rw [b.adds, b.forms]
    nofun
  rcases processTransactions_linked hmode hne b.formed with
    ⟨-, ⟨turn, hmem, hreject⟩, hlinked⟩ | ⟨-, hlinked, hanswer⟩
  · have hbefore := (hlinked.keeps b.start_ongoing
      fun turn hmem hst => (b.ongoing_of_turn hT hmem hst).1).2 turn hmem
    exact absurd hreject (b.ongoing_of_turn hT hmem hbefore).2
  · exact ⟨hlinked, hanswer⟩

end FormedBlock

end Formed

section Samples

def formationMode : ProcessingMode where
  markAsProcessed := true
  addToBlock := true
  verifyAgainstBlock := false

/-- The block that is formed of the given transactions, where the call ends. -/
theorem formedBlock_exists (ts unprocessed : List PoolTransaction)
    (hformed : (processTransactions sampleServices formationMode
      (managerCalls sampleServices sampleTrie) (fun _ => true) ts unprocessed
      { manager := sampleFlow, proposal := {} }).toOption.isSome = true) :
    ∃ b : FormedBlock sampleServices sampleTrie, b.mode = formationMode ∧
      b.running = (fun _ => true) ∧ b.transactions = ts ∧ b.unprocessed = unprocessed ∧
      b.start = { manager := sampleFlow, proposal := {} } := by
  obtain ⟨⟨answer, marked, finish⟩, hresult⟩ := Option.isSome_iff_exists.mp hformed
  exact ⟨{
    mode := formationMode
    running := fun _ => true
    transactions := ts
    unprocessed
    start := { manager := sampleFlow, proposal := {} }
    answer
    marked
    finish
    forms := rfl
    adds := rfl
    notCheckpointed := rfl
    ready := sampleFlow_ready
    formed := toOption_eq_some.mp hresult }, rfl, rfl, rfl, rfl, rfl⟩

end Samples

end Gridnet
