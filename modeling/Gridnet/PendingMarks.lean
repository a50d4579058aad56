import Gridnet.DeferredTransactions
import Gridnet.Nonces

/-! What a turn does to the marks of its transaction. Only what comes too early is deferred; the first loop marks it as
processed all the same, which the second does not. Only the first loop charges, and fires the trigger of the account
that it charges. -/

namespace Gridnet

section Accounts

variable (S : NodeServices) (l : Ledger)

/-- All that is wrong with a transaction is that its nonce is more than one above its account's. -/
def Early (tx : PoolTransaction) : Prop :=
  keyMatchesIssuer S tx = .ok true ∧ ∃ a issuerSD, authenticate S l tx false = .ok (a, issuerSD) ∧
    issuerSD.mNonce.toNat + 1 < tx.mNonce.toNat

/-- The transaction is processed, and account `a` is charged for it, which raises its nonce. -/
def ChargedTo (proposal : CBlockProposal) (tx : PoolTransaction) (a : Bytes) : Prop :=
  ∃ processed l', processOver S l tx proposal.keyHeight (poolReceiptID S (S.getHash tx.toCTransaction)) none none
      false false = .ok processed ∧
    processed.receipt.doNotIncludeInChain = false ∧ processed.confirmedDomainID = a ∧ a ≠ [] ∧
    LedgerFlow.chargeOver S (processed.base l) tx processed.receipt
      (poolReceiptID S (S.getHash tx.toCTransaction)) false proposal a = .ok (some l')

variable {S l} {tx : PoolTransaction} {keyHeight : UInt64} {receiptID : Bytes} {processed : Processed}

theorem early_nonce {a b : UInt64} : a + 1 ≠ b ∧ a < b ↔ a.toNat + 1 < b.toNat := by
  have hb := b.toNat_lt
  have hone : (1 : UInt64).toNat = 1 := rfl
  rw [UInt64.lt_iff_toNat_lt, Ne, ← UInt64.toNat_inj, UInt64.toNat_add, hone]
  constructor
  · rintro ⟨hne, hlt⟩
    rw [Nat.mod_eq_of_lt (by omega)] at hne
    omega
  · intro hlt
    rw [Nat.mod_eq_of_lt (by omega)]
    omega

/-- An early transaction is refused and deferred. -/
theorem processed_of_early (hearly : Early S l tx)
    (hprocess : processOver S l tx keyHeight receiptID none none false false = .ok processed) :
    processed.receipt.mResult = .invalidNonce ∧ processed.receipt.doNotIncludeInChain = true ∧
      processed.transaction = { tx with HotProperties := { tx.HotProperties with triggerRequired := true } } := by
  obtain ⟨hmatch, a, issuerSD, hauth, hnonce⟩ := hearly
  obtain ⟨hne, hlt⟩ := early_nonce.mpr hnonce
  have hjudge : judgeIssuer S tx keyHeight (nonceExcused none none) false a issuerSD = .untimely true a := by
    rw [judgeIssuer, if_pos ⟨hne, rfl⟩, decide_eq_true hlt]
  unfold processOver judge at hprocess
  rw [hmatch] at hprocess
  dsimp only [Option.isSome_none] at hprocess
  rw [hauth] at hprocess
  dsimp only at hprocess
  rw [hjudge] at hprocess
  cases hprocess
  exact ⟨rfl, rfl, rfl⟩

/-- Any other transaction keeps its marks while it is processed. -/
theorem processed_of_not_early (hearly : ¬Early S l tx)
    (hprocess : processOver S l tx keyHeight receiptID none none false false = .ok processed) :
    processed.transaction = tx := by
  unfold processOver at hprocess
  cases hjudge : judge S l tx keyHeight none none false with
  | error e => rw [hjudge] at hprocess; cases hprocess
  | ok verdict =>
      rw [hjudge] at hprocess
      dsimp only at hprocess
      rcases judge_cases hjudge with ⟨result, doNotInclude, -, rfl⟩ | ⟨a, issuerSD, hmatch, hauth, rfl⟩
      · cases hprocess
        rfl
      · by_cases htimely : issuerSD.mNonce + 1 ≠ tx.mNonce
        · have hlate : ¬issuerSD.mNonce < tx.mNonce := fun hlt =>
            hearly ⟨hmatch, a, issuerSD, hauth, early_nonce.mp ⟨htimely, hlt⟩⟩
          have hverdict : judgeIssuer S tx keyHeight (nonceExcused none none) false a issuerSD =
              .untimely false a := by
            rw [judgeIssuer, if_pos ⟨htimely, rfl⟩, decide_eq_false hlate]
          rw [hverdict] at hprocess
          cases hprocess
          rfl
        · generalize hverdict : judgeIssuer S tx keyHeight (nonceExcused none none) false a issuerSD = verdict
            at hprocess
          rcases judgeIssuer_cases hverdict with ⟨d, rfl⟩ | ⟨r, rfl⟩ | rfl | rfl
          · unfold judgeIssuer at hverdict
            rw [if_neg fun h => htimely h.1] at hverdict
            split_ifs at hverdict
          all_goals
            cases hprocess
            rfl

end Accounts

/-! ### The marks of a turn -/

section Marks

variable {S : NodeServices} {mode : ProcessingMode} {M : Type}

/-- A turn fires the triggers `fired` and leaves the transaction `tx` as `tx'`: it makes nothing wait that did not, and
what it adds to the block it marks as processed, if it marks anything. -/
structure TurnMarks (mode : ProcessingMode) (st st' : BlockState M) (fired : List Bytes) (tx tx' : PoolTransaction) :
    Prop where
  issuers : st'.issuersWithSuccessfulTx = st.issuersWithSuccessfulTx ++ fired
  waits : tx'.HotProperties.triggerRequired = true → tx.HotProperties.triggerRequired = true
  processed : st'.proposal.transactions ≠ st.proposal.transactions → mode.markAsProcessed = true →
    tx'.HotProperties.markedAsProcessed = true

theorem finalMarks_waits (tx : PoolTransaction) (receipt : CReceipt) :
    (finalMarks mode tx receipt).HotProperties.triggerRequired = tx.HotProperties.triggerRequired := by
  unfold finalMarks
  dsimp only
  split_ifs <;> rfl

theorem finalMarks_processed (hmark : mode.markAsProcessed = true) (tx : PoolTransaction) (receipt : CReceipt) :
    (finalMarks mode tx receipt).HotProperties.markedAsProcessed = true := by
  unfold finalMarks
  dsimp only
  rw [if_pos hmark]
  split_ifs <;> rfl

theorem failureMarks_waits (mode : ProcessingMode) (tx : PoolTransaction) (receipt : CReceipt) :
    (failureMarks mode tx receipt).HotProperties.triggerRequired = tx.HotProperties.triggerRequired := by
  unfold failureMarks
  split_ifs <;> rfl

/-- The first loop marks a deferred transaction as processed, if the call marks anything. -/
theorem finalMarks_deferred {tx : PoolTransaction} {receipt : CReceipt} (hresult : receipt.mResult = .invalidNonce)
    (hdiscard : receipt.doNotIncludeInChain = true) (hwaits : tx.HotProperties.triggerRequired = true) :
    (finalMarks mode tx receipt).HotProperties = { tx.HotProperties with
      markedAsProcessed := mode.markAsProcessed || tx.HotProperties.markedAsProcessed } := by
  unfold finalMarks
  dsimp only
  cases hmark : mode.markAsProcessed with
  | false => rfl
  | true =>
      have hkeeps : receipt.mResult = .invalidNonce ∧ tx.markAsProcessed.HotProperties.triggerRequired = true :=
        ⟨hresult, hwaits⟩
      rw [if_pos rfl, if_pos hdiscard, if_pos hkeeps]
      rfl

/-- The second loop leaves it as it is. -/
theorem retryMarks_deferred {tx : PoolTransaction} {receipt : CReceipt} (hresult : receipt.mResult = .invalidNonce)
    (hdiscard : receipt.doNotIncludeInChain = true) (hwaits : tx.HotProperties.triggerRequired = true) :
    retryMarks tx receipt = tx := by
  rw [retryMarks, if_pos hdiscard, if_pos ⟨hresult, hwaits⟩]

theorem recordTransaction_marks {st : BlockState M} {tx : PoolTransaction} {blockReceipt receipt : CReceipt}
    {turn : Turn M} (hrecord : recordTransaction mode st tx blockReceipt receipt = .ok turn) :
    TurnMarks mode st turn.state [] tx turn.transaction := by
  have hmarks : turn.transaction = finalMarks mode tx receipt ∧
      turn.state.issuersWithSuccessfulTx = st.issuersWithSuccessfulTx := by
    unfold recordTransaction at hrecord
    split_ifs at hrecord
    · cases hrecord
      exact ⟨rfl, rfl⟩
    · cases hadd : st.proposal.addTransaction tx.toCTransaction with
      | error e => rw [hadd] at hrecord; cases hrecord
      | ok proposal =>
          rw [hadd] at hrecord
          cases hrecord
          exact ⟨rfl, rfl⟩
    · cases hrecord
      exact ⟨rfl, rfl⟩
  refine ⟨by rw [hmarks.2, List.append_nil], ?_, fun _ hmark => ?_⟩
  · rw [hmarks.1, finalMarks_waits]
    exact id
  · rw [hmarks.1]
    exact finalMarks_processed hmark tx receipt

theorem countTransaction_marks {stepBack : M → Except ProcessFault M} {st : BlockState M} {tx : PoolTransaction}
    {blockReceipt receipt : CReceipt} {turn : Turn M}
    (hcount : countTransaction S mode stepBack st tx blockReceipt receipt = .ok turn) :
    TurnMarks mode st turn.state [] tx turn.transaction := by
  unfold countTransaction at hcount
  split_ifs at hcount
  · have hmarks := recordTransaction_marks hcount
    exact ⟨hmarks.issuers, hmarks.waits, hmarks.processed⟩
  · cases hcount
    exact ⟨(List.append_nil _).symm, id, fun hchanged => absurd rfl hchanged⟩
  · cases hback : stepBack st.manager with
    | error e => rw [hback] at hcount; cases hcount
    | ok m =>
        rw [hback] at hcount
        cases hcount
        refine ⟨(List.append_nil _).symm, ?_, fun hchanged => absurd rfl hchanged⟩
        intro hwaits
        cases hwaits
  · exact recordTransaction_marks hcount

/-- The middle of a turn fires the trigger of the account that it charges, if it charges any. -/
theorem settleTransaction_marks {st : BlockState LedgerFlow} {before : Ledger} (hown : st.manager.own = [before])
    {tx : PoolTransaction} {blockReceipt receipt : CReceipt} {receiptID a : Bytes} {turn : Turn LedgerFlow}
    (hsettle : settleTransaction S mode (LedgerFlow.calls S) st tx blockReceipt receipt receiptID false a = .ok turn) :
    (∃ l', receipt.doNotIncludeInChain = false ∧ a ≠ [] ∧
        LedgerFlow.chargeOver S (if rollsBack receipt false then before else st.manager.current) tx receipt
          receiptID false st.proposal a = .ok (some l') ∧
        TurnMarks mode st turn.state [a] tx turn.transaction) ∨
      (∀ l', ¬(receipt.doNotIncludeInChain = false ∧ a ≠ [] ∧
        LedgerFlow.chargeOver S (if rollsBack receipt false then before else st.manager.current) tx receipt
          receiptID false st.proposal a = .ok (some l'))) ∧
        TurnMarks mode st turn.state [] tx turn.transaction := by
  have hcall : (LedgerFlow.calls S).chargeIssuer st.manager tx receipt receiptID false st.proposal a =
      st.manager.charge S tx receipt receiptID false st.proposal a := rfl
  unfold settleTransaction at hsettle
  by_cases hcharge : receipt.doNotIncludeInChain = false ∧ a ≠ []
  · rw [if_pos hcharge, hcall, LedgerFlow.charge_eq _ before hown] at hsettle
    cases hcharged : LedgerFlow.chargeOver S (if rollsBack receipt false then before else st.manager.current) tx
        receipt receiptID false st.proposal a with
    | error e => rw [hcharged] at hsettle; cases hsettle
    | ok charged =>
        rw [hcharged] at hsettle
        cases charged with
        | none =>
            refine .inr ⟨?_, ?_⟩
            · rintro l' ⟨-, -, hpaid⟩
              cases hpaid
            · dsimp only at hsettle
              rw [afterCharge, if_neg Bool.false_ne_true] at hsettle
              split_ifs at hsettle
              all_goals
                cases hsettle
                refine ⟨(List.append_nil _).symm, fun hwaits => ?_, fun hchanged => absurd rfl hchanged⟩
                rw [← failureMarks_waits mode tx receipt]
                exact hwaits
        | some l' =>
            refine .inl ⟨l', hcharge.1, hcharge.2, rfl, ?_⟩
            dsimp only at hsettle
            rw [afterCharge, if_pos rfl] at hsettle
            have hmarks := countTransaction_marks hsettle
            refine ⟨hmarks.issuers.trans (List.append_nil _), fun hwaits => ?_, hmarks.processed⟩
            rw [← failureMarks_waits mode tx receipt]
            exact hmarks.waits hwaits
  · refine .inr ⟨fun l' h => hcharge ⟨h.1, h.2.1⟩, ?_⟩
    rw [if_neg hcharge] at hsettle
    split_ifs at hsettle
    · cases hsettle
      exact ⟨(List.append_nil _).symm, id, fun hchanged => absurd rfl hchanged⟩
    · exact countTransaction_marks hsettle

end Marks

/-! ### Turns on ledgers -/

section Flow

variable {S : NodeServices} {mode : ProcessingMode} {st st' : BlockState LedgerFlow} {tx tx' : PoolTransaction}
  {ending : TurnEnd}

/-- A formation turn, down to the transaction that it leaves. -/
theorem processTurn_settled (hverify : mode.verifyAgainstBlock = false) (hckpt : st.proposal.isCheckpointed = false)
    (hturn : processTurn S mode (LedgerFlow.calls S) st tx = .ok (ending, tx', st')) :
    ∃ processed turn, processOver S st.manager.current tx st.proposal.keyHeight
        (poolReceiptID S (S.getHash tx.toCTransaction)) none none false false = .ok processed ∧
      settleTransaction S mode (LedgerFlow.calls S) { st with manager := st.manager.after processed }
        processed.transaction {} processed.receipt (poolReceiptID S (S.getHash tx.toCTransaction)) false
        processed.confirmedDomainID = .ok turn ∧
      ending = turn.ending ∧ tx' = turn.transaction ∧
      st' = { turn.state with manager := turn.state.manager.finish turn.receipt } := by
  obtain ⟨processed, turn, hlimit, hprocess, hid, hsettle, hending, hst⟩ := processTurn_forming hverify hckpt hturn
  refine ⟨processed, turn, hprocess, hsettle, hending, ?_, hst⟩
  have hreceipt : blockReceiptFor mode st (S.getHash tx.toCTransaction) = some {} := by
    rw [blockReceiptFor, hverify, if_neg Bool.false_ne_true]
  have hreceiptID : receiptIDFor S mode {} (S.getHash tx.toCTransaction) =
      poolReceiptID S (S.getHash tx.toCTransaction) := by
    rw [receiptIDFor, hverify, if_neg Bool.false_ne_true]
  have hcall : (LedgerFlow.calls S).processTransaction st.manager (S.getHash tx.toCTransaction) tx
      st.proposal.keyHeight (poolReceiptID S (S.getHash tx.toCTransaction)) none none false false =
        .ok (processed, st.manager.after processed) := by
    show st.manager.process S tx st.proposal.keyHeight _ none none false false = _
    rw [LedgerFlow.process, if_neg fun h => hlimit h.2, hprocess]
    rfl
  have hafter : turnAfter S mode (LedgerFlow.calls S) { st with manager := st.manager.after processed }
      (S.getHash tx.toCTransaction) {} processed = .ok turn := by
    unfold turnAfter
    dsimp only
    rw [excusesERG_eq_false hckpt, enforcesFailure_eq_false hckpt, effectiveReceipt_forming hverify, hreceiptID, hid]
    exact hsettle
  unfold processTurn at hturn
  dsimp only at hturn
  rw [hreceipt] at hturn
  dsimp only at hturn
  rw [hreceiptID, hverify, if_neg Bool.false_ne_true, if_neg Bool.false_ne_true, excusesERG_eq_false hckpt,
    enforcesFailure_eq_false hckpt, hcall] at hturn
  dsimp only at hturn
  rw [hafter] at hturn
  cases hturn
  rfl

/-- A pick fires the trigger of an account: only the first loop charges. -/
def Fires (S : NodeServices) (l : Ledger) (proposal : CBlockProposal) (pick : Pick) (tx : PoolTransaction)
    (a : Bytes) : Prop := pick.again = false ∧ ChargedTo S l proposal tx a

/-- What a turn does to its transaction. An early one is deferred, and marked as processed in the first loop of a call
that marks; any other does not come to wait. What becomes part of the block is marked as processed, if anything is. -/
structure PendingEffect (S : NodeServices) (pick : Pick) (l : Ledger) {M : Type} (st st' : BlockState M)
    (tx tx' : PoolTransaction) : Prop where
  fired : ∃ fired, st'.issuersWithSuccessfulTx = st.issuersWithSuccessfulTx ++ fired ∧
    ((∃ a, Fires S l st.proposal pick tx a ∧ fired = [a]) ∨ (∀ a, ¬Fires S l st.proposal pick tx a) ∧ fired = [])
  early : Early S l tx → tx'.HotProperties = { tx.HotProperties with
      triggerRequired := true
      markedAsProcessed := !pick.again && pick.markAsProcessed || tx.HotProperties.markedAsProcessed } ∧
    st'.proposal.transactions = st.proposal.transactions
  waits : ¬Early S l tx → tx'.HotProperties.triggerRequired = true → tx.HotProperties.triggerRequired = true
  processed : st'.proposal.transactions ≠ st.proposal.transactions → pick.markAsProcessed = true →
    tx'.HotProperties.markedAsProcessed = true

theorem processTurn_effect {pick : Pick} (hfirst : pick.again = false) (hckpt : st.proposal.isCheckpointed = false)
    (hturn : processTurn S pick.mode (LedgerFlow.calls S) st tx = .ok (ending, tx', st')) :
    PendingEffect S pick st.manager.current st st' tx tx' := by
  obtain ⟨processed, turn, hprocess, hsettle, -, rfl, rfl⟩ := processTurn_settled rfl hckpt hturn
  have hcode := processOver_toCTransaction hprocess
  have hbase : (if rollsBack processed.receipt false then st.manager.current
      else (st.manager.after processed).current) = processed.base st.manager.current := rfl
  have hown : ({ st with manager := st.manager.after processed } : BlockState LedgerFlow).manager.own =
      [st.manager.current] := rfl
  have hmarks := settleTransaction_marks hown hsettle
  simp only [hbase, LedgerFlow.chargeOver_congr hcode] at hmarks
  have hfires : ∀ a, Fires S st.manager.current st.proposal pick tx a ↔
      ∃ l', processed.receipt.doNotIncludeInChain = false ∧ processed.confirmedDomainID ≠ [] ∧
        LedgerFlow.chargeOver S (processed.base st.manager.current) tx processed.receipt
          (poolReceiptID S (S.getHash tx.toCTransaction)) false st.proposal processed.confirmedDomainID =
            .ok (some l') ∧ a = processed.confirmedDomainID := by
    intro a
    constructor
    · rintro ⟨-, other, l', hother, hkept, rfl, hne, hcharge⟩
      obtain rfl := Except.ok.inj (hprocess.symm.trans hother)
      exact ⟨l', hkept, hne, hcharge, rfl⟩
    · rintro ⟨l', hkept, hne, hcharge, rfl⟩
      exact ⟨hfirst, processed, l', hprocess, hkept, rfl, hne, hcharge⟩
  refine ⟨?_, ?_, ?_, ?_⟩
  · rcases hmarks with ⟨l', hkept, hne, hcharge, hmarks⟩ | ⟨hnone, hmarks⟩
    · exact ⟨_, hmarks.issuers, .inl ⟨_, (hfires _).mpr ⟨l', hkept, hne, hcharge, rfl⟩, rfl⟩⟩
    · refine ⟨_, hmarks.issuers, .inr ⟨fun a hfire => ?_, rfl⟩⟩
      obtain ⟨l', hkept, hne, hcharge, -⟩ := (hfires a).mp hfire
      exact hnone l' ⟨hkept, hne, hcharge⟩
  · intro hearly
    obtain ⟨hresult, hdiscard, hdeferred⟩ := processed_of_early hearly hprocess
    unfold settleTransaction at hsettle
    rw [if_neg fun h => Bool.false_ne_true (h.1.symm.trans hdiscard), if_neg fun h => Bool.false_ne_true h.2.1,
      countTransaction_discarded rfl _ _ _ _ hdiscard] at hsettle
    cases hsettle
    refine ⟨?_, rfl⟩
    rw [finalMarks_deferred hresult hdiscard (by rw [hdeferred]), hdeferred, hfirst]
    rfl
  · intro hlate hwaits
    rw [processed_of_not_early hlate hprocess] at hmarks
    rcases hmarks with ⟨l', -, -, -, hmarks⟩ | ⟨-, hmarks⟩
    · exact hmarks.waits hwaits
    · exact hmarks.waits hwaits
  · intro hchanged hmark
    rcases hmarks with ⟨l', -, -, -, hmarks⟩ | ⟨-, hmarks⟩
    · exact hmarks.processed hchanged hmark
    · exact hmarks.processed hchanged hmark

/-- A turn of the second loop, down to the transaction that it leaves. -/
theorem retryTurn_settled (hturn : retryTurn S mode (LedgerFlow.calls S) st tx = .ok (tx', st')) :
    ∃ processed, processOver S st.manager.current tx st.proposal.keyHeight
        (poolReceiptID S (S.getHash tx.toCTransaction)) none none false false = .ok processed ∧
      tx' = retryMarks processed.transaction processed.receipt ∧
      st'.issuersWithSuccessfulTx = st.issuersWithSuccessfulTx ∧
      (processed.receipt.doNotIncludeInChain = true → st'.proposal.transactions = st.proposal.transactions) := by
  have hcall : (LedgerFlow.calls S).processTransaction st.manager (S.getHash tx.toCTransaction) tx
      st.proposal.keyHeight (poolReceiptID S (S.getHash tx.toCTransaction)) none none false false =
        st.manager.process S tx st.proposal.keyHeight
          (poolReceiptID S (S.getHash tx.toCTransaction)) none none false false := rfl
  unfold retryTurn at hturn
  dsimp only at hturn
  rw [hcall, LedgerFlow.process] at hturn
  by_cases hlimit : tx.mErgLimit < S.getMinERGLimit
  · rw [if_pos ⟨rfl, hlimit⟩] at hturn
    cases hturn
  rw [if_neg fun h => hlimit h.2] at hturn
  cases hprocess : processOver S st.manager.current tx st.proposal.keyHeight
      (poolReceiptID S (S.getHash tx.toCTransaction)) none none false false with
  | error e => rw [hprocess] at hturn; cases hturn
  | ok processed =>
      rw [hprocess] at hturn
      dsimp only [LedgerFlow.calls] at hturn
      refine ⟨processed, rfl, ?_⟩
      split_ifs at hturn with hadd
      · unfold CBlockProposal.addTransaction at hturn
        split_ifs at hturn
        cases hturn
        exact ⟨rfl, rfl, fun hdiscard => absurd (hadd.1.symm.trans hdiscard) Bool.false_ne_true⟩
      · cases hturn
        exact ⟨rfl, rfl, fun _ => rfl⟩

theorem retryMarks_waits (tx : PoolTransaction) (receipt : CReceipt) :
    (retryMarks tx receipt).HotProperties.triggerRequired = tx.HotProperties.triggerRequired := by
  unfold retryMarks
  split_ifs <;> rfl

theorem retryTurn_effect {pick : Pick} (hagain : pick.again = true)
    (hturn : retryTurn S pick.mode (LedgerFlow.calls S) st tx = .ok (tx', st')) :
    PendingEffect S pick st.manager.current st st' tx tx' := by
  obtain ⟨processed, hprocess, rfl, hissuers, hsame⟩ := retryTurn_settled hturn
  refine ⟨⟨[], by rw [hissuers, List.append_nil], .inr ⟨fun a hfire => ?_, rfl⟩⟩, ?_, ?_, ?_⟩
  · exact Bool.false_ne_true (hfire.1.symm.trans hagain)
  · intro hearly
    obtain ⟨hresult, hdiscard, hdeferred⟩ := processed_of_early hearly hprocess
    refine ⟨?_, hsame hdiscard⟩
    rw [retryMarks_deferred hresult hdiscard (by rw [hdeferred]), hdeferred, hagain]
    rfl
  · intro hlate hwaits
    rwa [retryMarks_waits, processed_of_not_early hlate hprocess] at hwaits
  · intro hchanged _
    have hkept : ¬processed.receipt.doNotIncludeInChain = true := fun hdiscard => hchanged (hsame hdiscard)
    rw [retryMarks, if_neg hkept]
    rfl

/-- A turn of either loop. -/
theorem turn_effect {pick : Pick} (hckpt : st.proposal.isCheckpointed = false)
    (hturn : pick.turn S (LedgerFlow.calls S) st tx = .ok (ending, tx', st')) :
    PendingEffect S pick st.manager.current st st' tx tx' := by
  unfold Pick.turn at hturn
  cases hagain : pick.again with
  | false =>
      rw [hagain, if_neg Bool.false_ne_true] at hturn
      exact processTurn_effect hagain hckpt hturn
  | true =>
      rw [hagain, if_pos rfl, retried] at hturn
      cases hretry : retryTurn S pick.mode (LedgerFlow.calls S) st tx with
      | error e => rw [hretry] at hturn; cases hturn
      | ok result =>
          rw [hretry] at hturn
          cases hturn
          exact retryTurn_effect hagain hretry

end Flow

/-! ### Turns of the manager -/

section Manager

open TransactionManager

variable {S : NodeServices} {DB : Type} {T : LedgerTrie DB} {st st' : BlockState (TransactionManager DB)}
  {tx tx' : PoolTransaction} {pick : Pick} {ending : TurnEnd}

/-- A turn of the manager as one on its ledgers. -/
theorem turn_alike (hT : T.Documented) {f : LedgerFlow} (hholds : st.manager.Holds T f)
    (hckpt : st.proposal.isCheckpointed = false)
    (hturn : pick.turn S (managerCalls S T) st tx = .ok (ending, tx', st')) :
    ∃ f', pick.turn S (LedgerFlow.calls S) (st.over f) tx = .ok (ending, tx', st'.over f') ∧
      st'.manager.Holds T f' ∧ st'.proposal.isCheckpointed = false := by
  unfold Pick.turn at hturn ⊢
  cases hagain : pick.again with
  | false =>
      rw [hagain, if_neg Bool.false_ne_true] at hturn
      obtain ⟨⟨ending', t', sf⟩, hturn', hend, htx, hstate⟩ :=
        (processTurn_alike S pick.mode hT hholds tx).ok_of_eq hturn
      dsimp only at hend htx hstate
      subst hend htx
      obtain ⟨processed, -, -, -, houtcome⟩ := formationOutcome_of_turn rfl rfl hckpt hholds.own hturn'
      obtain ⟨hover, hholds'⟩ := hstate houtcome.ending_ne
      rw [hover] at hturn'
      have hsame := houtcome.isCheckpointed
      rw [hover] at hsame
      exact ⟨sf.manager, hturn', hholds', hsame.trans hckpt⟩
  | true =>
      rw [hagain, if_pos rfl, retried] at hturn
      cases hretry : retryTurn S pick.mode (managerCalls S T) st tx with
      | error e => rw [hretry] at hturn; cases hturn
      | ok result =>
          obtain ⟨tx₁, st₁⟩ := result
          rw [hretry] at hturn
          cases hturn
          obtain ⟨⟨t', sf⟩, hturn', htx, hover, hholds'⟩ :=
            (retryTurn_alike S pick.mode hT hholds tx).ok_of_eq hretry
          dsimp only at htx hover hholds'
          subst htx
          rw [hover] at hturn'
          have hckpt' : st'.proposal.isCheckpointed = false := by
            obtain ⟨processed, -, -, houtcome⟩ := retryOutcome_of_turn rfl hholds.own hturn'
            rcases houtcome with ⟨-, hsame⟩ | ⟨-, -, hsame⟩
            · exact (congrArg (fun sf => sf.proposal.isCheckpointed) hsame).trans hckpt
            · exact (congrArg (fun sf => sf.proposal.isCheckpointed) hsame).trans hckpt
          rw [if_pos rfl, retried, hturn']
          exact ⟨sf.manager, rfl, hholds', hckpt'⟩

/-- A turn of the manager does to its transaction what the turn on its ledgers does, and leaves the manager ready for
the next one. -/
theorem turn_effect_manager (hT : T.Documented) (hongoing : FormedBlock.Ongoing T st)
    (hturn : pick.turn S (managerCalls S T) st tx = .ok (ending, tx', st')) :
    PendingEffect S pick (st.manager.ledger T) st st' tx tx' ∧ FormedBlock.Ongoing T st' := by
  obtain ⟨hckpt, f, hholds⟩ := hongoing
  obtain ⟨f', hflow, hholds', hckpt'⟩ := turn_alike hT hholds hckpt hturn
  have hckptFlow : (st.over f).proposal.isCheckpointed = false := hckpt
  have heffect := turn_effect hckptFlow hflow
  have hledger : (st.over f).manager.current = st.manager.ledger T := hholds.current.symm
  rw [hledger] at heffect
  exact ⟨⟨heffect.fired, heffect.early, heffect.waits, heffect.processed⟩, hckpt', f', hholds'⟩

end Manager

end Gridnet
