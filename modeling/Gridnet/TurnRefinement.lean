import Gridnet.LedgerFlow

/-! What holds of the calls of a turn holds of the turn and of the loops: processing over the manager
and processing over ledgers end alike. -/

namespace Gridnet

open TransactionManager

/-- The state over another manager. -/
def BlockState.over {M N : Type} (st : BlockState M) (n : N) : BlockState N :=
  { manager := n
    mUtilizedBlockSize := st.mUtilizedBlockSize
    mUtilizedERG := st.mUtilizedERG
    mTotalGNCFees := st.mTotalGNCFees
    proposal := st.proposal
    receipts := st.receipts
    countOfDomains := st.countOfDomains
    issuersWithSuccessfulTx := st.issuersWithSuccessfulTx }

/-- The same state over related managers. -/
def StateAlike {M N : Type} (R : M → N → Prop) (st : BlockState M) (st' : BlockState N) : Prop :=
  st' = st.over st'.manager ∧ R st.manager st'.manager

section Turns

variable {S : NodeServices} {DB : Type} {T : LedgerTrie DB} {mode : ProcessingMode}

/-- Two turns before their clean-up: one that goes on with a transaction that is kept leaves the same
ledgers, any other at least what it takes to revert it. -/
structure TurnAlike (T : LedgerTrie DB) (x : Turn (TransactionManager DB)) (y : Turn LedgerFlow) :
    Prop where
  ending : x.ending = y.ending
  transaction : x.transaction = y.transaction
  receipt : x.receipt = y.receipt
  reverted : StateAlike (HoldsReverted T) x.state y.state
  kept : x.receipt.doNotIncludeInChain = false → x.ending ≠ .reject →
    HoldsDuring T x.state.manager y.state.manager

/-- Two turns after their clean-up. -/
structure ResultAlike (T : LedgerTrie DB)
    (x : TurnEnd × PoolTransaction × BlockState (TransactionManager DB))
    (y : TurnEnd × PoolTransaction × BlockState LedgerFlow) : Prop where
  ending : x.1 = y.1
  transaction : x.2.1 = y.2.1
  state : x.1 ≠ .reject → StateAlike (Holds T) x.2.2 y.2.2

theorem recordTransaction_alike (st : BlockState (TransactionManager DB)) {f : LedgerFlow}
    (hduring : HoldsDuring T st.manager f) (t : PoolTransaction)
    (blockReceipt receipt : CReceipt) :
    EndsAlike (TurnAlike T) (recordTransaction mode st t blockReceipt receipt)
      (recordTransaction mode (st.over f) t blockReceipt receipt) := by
  unfold recordTransaction
  by_cases hverify : mode.verifyAgainstBlock = true
  · rw [if_pos hverify, if_pos hverify]
    exact EndsAlike.ok ⟨rfl, rfl, rfl, ⟨rfl, hduring.reverted⟩, fun _ _ => hduring⟩
  rw [if_neg hverify, if_neg hverify]
  by_cases hadd : receipt.doNotIncludeInChain = false ∧ mode.addToBlock = true
  · rw [if_pos hadd, if_pos hadd]
    have hproposal : (st.over f).proposal = st.proposal := rfl
    rw [hproposal]
    cases st.proposal.addTransaction t.toCTransaction with
    | error e => exact EndsAlike.error e
    | ok proposal =>
        exact EndsAlike.ok ⟨rfl, rfl, rfl, ⟨rfl, hduring.reverted⟩, fun _ _ => hduring⟩
  · rw [if_neg hadd, if_neg hadd]
    exact EndsAlike.ok ⟨rfl, rfl, rfl, ⟨rfl, hduring.reverted⟩, fun _ _ => hduring⟩

theorem countTransaction_alike (hT : T.Documented) (st : BlockState (TransactionManager DB))
    {f : LedgerFlow} (hduring : HoldsDuring T st.manager f) (t : PoolTransaction)
    (blockReceipt receipt : CReceipt) :
    EndsAlike (TurnAlike T)
      (countTransaction S mode (managerCalls S T).stepBack st t blockReceipt receipt)
      (countTransaction S mode (LedgerFlow.calls S).stepBack (st.over f) t blockReceipt receipt) := by
  have htally : (st.over f).tally S t receipt = (st.tally S t receipt).over f := rfl
  have hlimits : withinLimits S ((st.tally S t receipt).over f) =
      withinLimits S (st.tally S t receipt) := rfl
  unfold countTransaction
  rw [htally, hlimits]
  by_cases hincluded :
      (receipt.doNotIncludeInChain = false ∧ mode.addToBlock = true) ∨ mode.verifyAgainstBlock = true
  · rw [if_pos hincluded, if_pos hincluded]
    by_cases hwithin : withinLimits S (st.tally S t receipt) = true
    · rw [if_pos hwithin, if_pos hwithin]
      exact recordTransaction_alike (st.tally S t receipt) hduring t blockReceipt receipt
    rw [if_neg hwithin, if_neg hwithin]
    by_cases hverify : mode.verifyAgainstBlock = true
    · rw [if_pos hverify, if_pos hverify]
      exact EndsAlike.ok
        ⟨rfl, rfl, rfl, ⟨rfl, hduring.reverted⟩, fun _ hreject => absurd rfl hreject⟩
    rw [if_neg hverify, if_neg hverify]
    have hback : EndsAlike (HoldsDuring T) ((managerCalls S T).stepBack st.manager)
        ((LedgerFlow.calls S).stepBack (st.over f).manager) := stepBack_alike hT hduring
    rcases hback.outcome with ⟨e, hx, hy⟩ | ⟨m₂, f₂, hx, hy, hduring₂⟩
    · rw [hx, hy]
      exact EndsAlike.error e
    · rw [hx, hy]
      exact EndsAlike.ok ⟨rfl, rfl, rfl, ⟨rfl, hduring₂.reverted⟩, fun _ _ => hduring₂⟩
  · rw [if_neg hincluded, if_neg hincluded]
    exact recordTransaction_alike st hduring t blockReceipt receipt

theorem settleTransaction_alike (hT : T.Documented) {st : BlockState (TransactionManager DB)}
    {f : LedgerFlow} (hduring : HoldsDuring T st.manager f) (t : PoolTransaction)
    (blockReceipt receipt : CReceipt) (receiptID : Bytes) (enforceFailure : Bool)
    (confirmedDomainID : Bytes) :
    EndsAlike (TurnAlike T)
      (settleTransaction S mode (managerCalls S T) st t blockReceipt receipt receiptID
        enforceFailure confirmedDomainID)
      (settleTransaction S mode (LedgerFlow.calls S) (st.over f) t blockReceipt receipt receiptID
        enforceFailure confirmedDomainID) := by
  unfold settleTransaction
  by_cases hcharge : receipt.doNotIncludeInChain = false ∧ confirmedDomainID ≠ []
  · rw [if_pos hcharge, if_pos hcharge]
    have halike : EndsAlike _ ((managerCalls S T).chargeIssuer st.manager t receipt receiptID
        enforceFailure st.proposal confirmedDomainID)
        ((LedgerFlow.calls S).chargeIssuer (st.over f).manager t receipt receiptID enforceFailure
          (st.over f).proposal confirmedDomainID) :=
      chargeIssuer_alike hT hduring t receipt receiptID enforceFailure st.proposal
        confirmedDomainID
    rcases halike.outcome with
      ⟨e, hx, hy⟩ | ⟨⟨charged, m₂⟩, ⟨charged', f₂⟩, hx, hy, heq, hrev, hkept⟩
    · rw [hx, hy]
      exact EndsAlike.error e
    rw [hx, hy]
    dsimp only at heq hrev hkept
    subst heq
    unfold afterCharge
    cases charged with
    | true =>
        exact countTransaction_alike hT
          { st with
            manager := m₂
            countOfDomains := st.countOfDomains + 1
            issuersWithSuccessfulTx := st.issuersWithSuccessfulTx ++ [confirmedDomainID] }
          (hkept rfl) _ blockReceipt receipt
    | false =>
        dsimp only
        rw [if_neg Bool.false_ne_true, if_neg Bool.false_ne_true]
        by_cases hverify : mode.verifyAgainstBlock = true
        · rw [if_pos hverify, if_pos hverify]
          exact EndsAlike.ok ⟨rfl, rfl, rfl, ⟨rfl, hrev⟩, fun _ hreject => absurd rfl hreject⟩
        · rw [if_neg hverify, if_neg hverify]
          exact EndsAlike.ok ⟨rfl, rfl, rfl, ⟨rfl, hrev⟩, nofun⟩
  rw [if_neg hcharge, if_neg hcharge]
  by_cases hreject : receipt.mResult ≠ .valid ∧ mode.verifyAgainstBlock = true ∧
      st.proposal.isCheckpointed = false
  · have hreject' : receipt.mResult ≠ .valid ∧ mode.verifyAgainstBlock = true ∧
        (st.over f).proposal.isCheckpointed = false := hreject
    rw [if_pos hreject, if_pos hreject']
    exact EndsAlike.ok
      ⟨rfl, rfl, rfl, ⟨rfl, hduring.reverted⟩, fun _ hne => absurd rfl hne⟩
  · have hreject' : ¬ (receipt.mResult ≠ .valid ∧ mode.verifyAgainstBlock = true ∧
        (st.over f).proposal.isCheckpointed = false) := hreject
    rw [if_neg hreject, if_neg hreject']
    exact countTransaction_alike hT st hduring t blockReceipt receipt

/-- The clean-up of related turns. -/
theorem endTransaction_alike (hT : T.Documented) {x : Turn (TransactionManager DB)}
    {y : Turn LedgerFlow} (hturn : TurnAlike T x y) :
    ∃ m, endTransaction T x.state.manager x.receipt = .ok m ∧
      (x.ending ≠ .reject → m.Holds T (y.state.manager.finish y.receipt)) := by
  cases hdiscard : x.receipt.doNotIncludeInChain with
  | true =>
      obtain ⟨m, hend, hholds⟩ := endTransaction_reverted hT hturn.reverted.2 hdiscard
      exact ⟨m, hend, fun _ => hturn.receipt ▸ hholds⟩
  | false =>
      by_cases hreject : x.ending = .reject
      · obtain ⟨m, hend⟩ := endTransaction_ok hT hturn.reverted.2 x.receipt
        exact ⟨m, hend, fun hne => absurd hreject hne⟩
      · obtain ⟨m, hend, hholds⟩ := endTransaction_kept (hturn.kept hdiscard hreject) hdiscard
        exact ⟨m, hend, fun _ => hturn.receipt ▸ hholds⟩

theorem turnAfter_alike (hT : T.Documented) {st : BlockState (TransactionManager DB)}
    {f : LedgerFlow} (hduring : HoldsDuring T st.manager f) (transID : Bytes)
    (blockReceipt : CReceipt) (processed : Processed) :
    EndsAlike (TurnAlike T) (turnAfter S mode (managerCalls S T) st transID blockReceipt processed)
      (turnAfter S mode (LedgerFlow.calls S) (st.over f) transID blockReceipt processed) := by
  have hproposal : (st.over f).proposal = st.proposal := rfl
  unfold turnAfter
  rw [hproposal]
  dsimp only
  split
  · exact EndsAlike.error _
  · exact EndsAlike.ok ⟨rfl, rfl, rfl, ⟨rfl, hduring.reverted⟩, fun _ hne => absurd rfl hne⟩
  · exact settleTransaction_alike hT hduring _ _ _ _ _ _

/-- A turn over the manager and the same turn over its ledgers end alike. -/
theorem processTurn_alike (S : NodeServices) (mode : ProcessingMode) (hT : T.Documented)
    {st : BlockState (TransactionManager DB)} {f : LedgerFlow} (hholds : st.manager.Holds T f)
    (t : PoolTransaction) :
    EndsAlike (ResultAlike T) (processTurn S mode (managerCalls S T) st t)
      (processTurn S mode (LedgerFlow.calls S) (st.over f) t) := by
  have hreceipt : ∀ transID, blockReceiptFor mode (st.over f) transID =
      blockReceiptFor mode st transID := fun _ => rfl
  have hproposal : (st.over f).proposal = st.proposal := rfl
  have hmanager : (st.over f).manager = f := rfl
  unfold processTurn
  dsimp only
  rw [hreceipt, hproposal, hmanager]
  cases blockReceiptFor mode st (S.getHash t.toCTransaction) with
  | none => exact EndsAlike.ok ⟨rfl, rfl, fun hne => absurd rfl hne⟩
  | some blockReceipt =>
      dsimp only
      have hprocess := processTransaction_alike (S := S) hT hholds (S.getHash t.toCTransaction) t
        st.proposal.keyHeight (receiptIDFor S mode blockReceipt (S.getHash t.toCTransaction))
        (if mode.verifyAgainstBlock then some blockReceipt else none)
        (if mode.verifyAgainstBlock then some st.proposal else none)
        (excusesERG st.proposal blockReceipt) (enforcesFailure st.proposal blockReceipt)
      rcases hprocess.outcome with
        ⟨e, hx, hy⟩ | ⟨⟨processed, m₂⟩, ⟨processed', f₂⟩, hx, hy, heq, hduring⟩
      · rw [hx, hy]
        exact EndsAlike.error e
      rw [hx, hy]
      dsimp only at heq hduring ⊢
      subst heq
      have hduring' : HoldsDuring T ({ st with manager := m₂ } : BlockState _).manager f₂ := hduring
      have hturn : EndsAlike (TurnAlike T)
          (turnAfter S mode (managerCalls S T) { st with manager := m₂ }
            (S.getHash t.toCTransaction) blockReceipt processed)
          (turnAfter S mode (LedgerFlow.calls S)
            { st.over f with manager := f₂, proposal := st.proposal }
            (S.getHash t.toCTransaction) blockReceipt processed) :=
        turnAfter_alike hT hduring' (S.getHash t.toCTransaction) blockReceipt processed
      rcases hturn.outcome with ⟨e, hx, hy⟩ | ⟨x, y, hx, hy, hxy⟩
      · rw [hx, hy]
        exact EndsAlike.error e
      · obtain ⟨m₃, hend, hholds₃⟩ := endTransaction_alike hT hxy
        have hfinish : (managerCalls S T).endTransaction x.state.manager x.receipt = .ok m₃ := hend
        rw [hx, hy]
        dsimp only
        rw [hfinish]
        refine EndsAlike.ok ⟨hxy.ending, hxy.transaction, fun hne => ⟨?_, hholds₃ hne⟩⟩
        have hstate := hxy.reverted.1
        dsimp only
        rw [hstate]
        rfl

/-- Turns that end alike make loops that end alike. -/
theorem processLoop_alike (hT : T.Documented) (running : ℕ → Bool) (ts : List PoolTransaction)
    (st : BlockState (TransactionManager DB)) {f : LedgerFlow} (hholds : st.manager.Holds T f) :
    EndsAlike
      (fun x y => x.1 = y.1 ∧ x.2.1 = y.2.1 ∧
        (x.1 ≠ .reject → StateAlike (Holds T) x.2.2 y.2.2))
      (processLoop S (processTurn S mode (managerCalls S T)) running ts st)
      (processLoop S (processTurn S mode (LedgerFlow.calls S)) running ts (st.over f)) := by
  induction ts generalizing st f with
  | nil => exact EndsAlike.ok ⟨rfl, rfl, fun _ => ⟨rfl, hholds⟩⟩
  | cons t ts ih =>
      have hlimits : withinLimits S (st.over f) = withinLimits S st := rfl
      unfold processLoop
      rw [hlimits]
      by_cases hrun : running ts.length = true ∧ withinLimits S st = true
      · rw [if_pos hrun, if_pos hrun]
        by_cases hmarked : t.HotProperties.markedAsProcessed = true
        · rw [if_pos hmarked, if_pos hmarked]
          rcases (ih st hholds).outcome with
            ⟨e, hx, hy⟩ | ⟨⟨ending, ts₂, st₂⟩, ⟨ending', ts₂', sf₂⟩, hx, hy, hend, hts, hstate⟩
          · rw [hx, hy]
            exact EndsAlike.error e
          · rw [hx, hy]
            exact EndsAlike.ok ⟨hend, congrArg _ hts, hstate⟩
        rw [if_neg hmarked, if_neg hmarked]
        rcases (processTurn_alike S mode hT hholds t).outcome with
          ⟨e, hx, hy⟩ | ⟨⟨ending, t₂, st₂⟩, ⟨ending', t₂', sf₂⟩, hx, hy, hturn⟩
        · rw [hx, hy]
          exact EndsAlike.error e
        obtain ⟨hend, htx, hstate⟩ := hturn
        dsimp only at hend htx hstate
        subst hend htx
        rw [hx, hy]
        cases ending with
        | proceed =>
            obtain ⟨hover, hholds₂⟩ := hstate nofun
            have hrest := ih st₂ hholds₂
            rw [← hover] at hrest
            rcases hrest.outcome with
              ⟨e, hx, hy⟩ | ⟨⟨ending, ts₂, st₃⟩, ⟨ending', ts₂', sf₃⟩, hx, hy, hend, hts, hstate⟩
            · dsimp only
              rw [hx, hy]
              exact EndsAlike.error e
            · dsimp only
              rw [hx, hy]
              exact EndsAlike.ok ⟨hend, congrArg _ hts, hstate⟩
        | leaveLoop => exact EndsAlike.ok ⟨rfl, rfl, hstate⟩
        | reject => exact EndsAlike.ok ⟨rfl, rfl, hstate⟩
      · rw [if_neg hrun, if_neg hrun]
        exact EndsAlike.ok ⟨rfl, rfl, fun _ => ⟨rfl, hholds⟩⟩

/-- The same for a transaction that is tried again. -/
theorem retryTurn_alike (S : NodeServices) (mode : ProcessingMode) (hT : T.Documented)
    {st : BlockState (TransactionManager DB)} {f : LedgerFlow} (hholds : st.manager.Holds T f)
    (t : PoolTransaction) :
    EndsAlike (fun x y => x.1 = y.1 ∧ StateAlike (Holds T) x.2 y.2)
      (retryTurn S mode (managerCalls S T) st t)
      (retryTurn S mode (LedgerFlow.calls S) (st.over f) t) := by
  have hproposal : (st.over f).proposal = st.proposal := rfl
  have hmanager : (st.over f).manager = f := rfl
  unfold retryTurn
  dsimp only
  rw [hproposal, hmanager]
  rcases (processTransaction_alike (S := S) hT hholds (S.getHash t.toCTransaction) t
      st.proposal.keyHeight (poolReceiptID S (S.getHash t.toCTransaction)) none none false
      false).outcome with
    ⟨e, hx, hy⟩ | ⟨⟨processed, m₂⟩, ⟨processed', f₂⟩, hx, hy, heq, hduring⟩
  · rw [hx, hy]
    exact EndsAlike.error e
  rw [hx, hy]
  dsimp only at heq hduring ⊢
  subst heq
  obtain ⟨m₃, hend, hholds₃⟩ : ∃ m₃, endTransaction T m₂ processed.receipt = .ok m₃ ∧
      m₃.Holds T (f₂.finish processed.receipt) := by
    cases hdiscard : processed.receipt.doNotIncludeInChain with
    | true => exact endTransaction_reverted hT hduring.reverted hdiscard
    | false => exact endTransaction_kept hduring hdiscard
  have hfinish : (managerCalls S T).endTransaction m₂ processed.receipt = .ok m₃ := hend
  rw [hfinish]
  dsimp only [LedgerFlow.calls]
  by_cases hadd : processed.receipt.doNotIncludeInChain = false ∧ mode.addToBlock = true ∧
      processed.confirmedDomainID ≠ []
  · rw [if_pos hadd, if_pos hadd]
    cases st.proposal.addTransaction processed.transaction.toCTransaction with
    | error e => exact EndsAlike.error e
    | ok proposal => exact EndsAlike.ok ⟨rfl, rfl, hholds₃⟩
  · rw [if_neg hadd, if_neg hadd]
    exact EndsAlike.ok ⟨rfl, rfl, hholds₃⟩

theorem retryLoop_alike (S : NodeServices) (mode : ProcessingMode) (hT : T.Documented)
    (ts : List PoolTransaction) {st : BlockState (TransactionManager DB)} {f : LedgerFlow}
    (hholds : st.manager.Holds T f) :
    EndsAlike (fun x y => x.1 = y.1 ∧ StateAlike (Holds T) x.2 y.2)
      (retryLoop S mode (managerCalls S T) ts st)
      (retryLoop S mode (LedgerFlow.calls S) ts (st.over f)) := by
  induction ts generalizing st f with
  | nil => exact EndsAlike.ok ⟨rfl, rfl, hholds⟩
  | cons t ts ih =>
      have hlimits : withinLimits S (st.over f) = withinLimits S st := rfl
      unfold retryLoop
      rw [hlimits]
      by_cases hrun : withinLimits S st = true
      · rw [if_pos hrun, if_pos hrun]
        by_cases hmarked : t.HotProperties.markedAsProcessed = true
        · rw [if_pos hmarked, if_pos hmarked]
          rcases (ih hholds).outcome with ⟨e, hx, hy⟩ | ⟨⟨ts₂, st₂⟩, ⟨ts₂', sf₂⟩, hx, hy, hts, hstate⟩
          · rw [hx, hy]
            exact EndsAlike.error e
          · rw [hx, hy]
            exact EndsAlike.ok ⟨congrArg _ hts, hstate⟩
        rw [if_neg hmarked, if_neg hmarked]
        rcases (retryTurn_alike S mode hT hholds t).outcome with
          ⟨e, hx, hy⟩ | ⟨⟨t₂, st₂⟩, ⟨t₂', sf₂⟩, hx, hy, htx, hover, hholds₂⟩
        · rw [hx, hy]
          exact EndsAlike.error e
        dsimp only at htx hover hholds₂
        subst htx
        rw [hx, hy]
        have hrest := ih hholds₂
        rw [← hover] at hrest
        dsimp only
        rcases hrest.outcome with ⟨e, hx, hy⟩ | ⟨⟨ts₂, st₃⟩, ⟨ts₂', sf₃⟩, hx, hy, hts, hstate⟩
        · rw [hx, hy]
          exact EndsAlike.error e
        · rw [hx, hy]
          exact EndsAlike.ok ⟨congrArg _ hts, hstate⟩
      · rw [if_neg hrun, if_neg hrun]
        exact EndsAlike.ok ⟨rfl, rfl, hholds⟩

/-- The answer and the transactions are the same, and for an accepted block the state. -/
def AnswerAlike (T : LedgerTrie DB)
    (x : Bool × List PoolTransaction × BlockState (TransactionManager DB))
    (y : Bool × List PoolTransaction × BlockState LedgerFlow) : Prop :=
  x.1 = y.1 ∧ x.2.1 = y.2.1 ∧ (x.1 = true → StateAlike (Holds T) x.2.2 y.2.2)

theorem afterLoop_alike (S : NodeServices) (mode : ProcessingMode) (hT : T.Documented)
    (unprocessed : List PoolTransaction) (ending : TurnEnd) (ts : List PoolTransaction)
    {st : BlockState (TransactionManager DB)} {f : LedgerFlow} (hholds : st.manager.Holds T f) :
    EndsAlike (AnswerAlike T) (afterLoop S mode (managerCalls S T) unprocessed ending ts st)
      (afterLoop S mode (LedgerFlow.calls S) unprocessed ending ts (st.over f)) := by
  have hcount : countAgrees (st.over f) = countAgrees st := rfl
  have hretry : toRetry unprocessed (st.over f) = toRetry unprocessed st := rfl
  have hlimits : withinLimits S (st.over f) = withinLimits S st := rfl
  have hissuers : (st.over f).issuersWithSuccessfulTx = st.issuersWithSuccessfulTx := rfl
  unfold afterLoop
  rw [hcount, hretry, hlimits, hissuers]
  split_ifs with hagain
  · rcases (retryLoop_alike S mode hT (toRetry unprocessed st) hholds).outcome with
      ⟨e, hx, hy⟩ | ⟨⟨retried, st₂⟩, ⟨retried', sf₂⟩, hx, hy, hretried, hover, hholds₂⟩
    · rw [hx, hy]
      exact EndsAlike.error e
    · dsimp only at hretried hover hholds₂
      rw [hx, hy, hover, hretried]
      exact EndsAlike.ok ⟨rfl, rfl, fun _ => ⟨rfl, hholds₂⟩⟩
  · exact EndsAlike.ok ⟨rfl, rfl, fun _ => ⟨rfl, hholds⟩⟩

/-- Processing over the manager and over its ledgers answers the same, and leaves the same state
unless the block is rejected. -/
theorem processTransactions_alike (S : NodeServices) (mode : ProcessingMode) (hT : T.Documented)
    (running : ℕ → Bool) (ts unprocessed : List PoolTransaction)
    {st : BlockState (TransactionManager DB)} {f : LedgerFlow} (hholds : st.manager.Holds T f) :
    EndsAlike (AnswerAlike T)
      (processTransactions S mode (managerCalls S T) running ts unprocessed st)
      (processTransactions S mode (LedgerFlow.calls S) running ts unprocessed (st.over f)) := by
  unfold processTransactions
  by_cases hmode : mode.addToBlock = mode.verifyAgainstBlock
  · rw [if_pos hmode, if_pos hmode]
    exact EndsAlike.ok ⟨rfl, rfl, nofun⟩
  rw [if_neg hmode, if_neg hmode]
  by_cases hempty : ts = []
  · rw [if_pos hempty, if_pos hempty]
    exact EndsAlike.ok ⟨rfl, rfl, fun _ => ⟨rfl, hholds⟩⟩
  rw [if_neg hempty, if_neg hempty]
  have hloop : EndsAlike _
      (processLoop S (processTurn S mode (managerCalls S T)) running ts
        { st with countOfDomains := 0, issuersWithSuccessfulTx := [] })
      (processLoop S (processTurn S mode (LedgerFlow.calls S)) running ts
        { st.over f with countOfDomains := 0, issuersWithSuccessfulTx := [] }) :=
    processLoop_alike hT running ts { st with countOfDomains := 0, issuersWithSuccessfulTx := [] }
      hholds
  rcases hloop.outcome with
    ⟨e, hx, hy⟩ | ⟨⟨ending, ts₂, st₂⟩, ⟨ending', ts₂', sf₂⟩, hx, hy, hend, hts, hstate⟩
  · rw [hx, hy]
    exact EndsAlike.error e
  dsimp only at hend hts hstate
  subst hend hts
  rw [hx, hy]
  cases ending with
  | reject => exact EndsAlike.ok ⟨rfl, rfl, nofun⟩
  | proceed =>
      obtain ⟨hover, hholds₂⟩ := hstate nofun
      dsimp only
      rw [hover]
      exact afterLoop_alike S mode hT unprocessed .proceed ts₂ hholds₂
  | leaveLoop =>
      obtain ⟨hover, hholds₂⟩ := hstate nofun
      dsimp only
      rw [hover]
      exact afterLoop_alike S mode hT unprocessed .leaveLoop ts₂ hholds₂

end Turns

end Gridnet
