import Gridnet.ReplayProtection
import Gridnet.RewardAgreement
import Gridnet.FraudRuns

/-! The receipts of a block that passes against what processing yields. The results of verifiables are compared one by
one, the fees of transactions in one sum, and nothing else is: a receipt is truthful exactly if whoever made the block
wrote into it what the checks of the issuer, or the script, come to over the domains of the turn. -/

namespace Gridnet

/-! ### Transactions -/

section Transactions

/-- What a transaction of an authenticated issuer comes to over the domains `l`: the result and the ERG that it uses.
The checks before the script use none. -/
def dueOutcome (S : NodeServices) (l : Ledger) (t : PoolTransaction) (block : CBlockProposal)
    (receiptID confirmedDomainID : Bytes) (issuerSD : StateDomain) : eTransactionValidationResult × BigInt :=
  if issuerSD.mNonce + 1 ≠ t.mNonce then (.invalidNonce, 0)
  else if t.mErgPrice = 0 ∨ t.mErgPrice < S.getMinNodeERGPrice block.keyHeight then (.ERGBidTooLow, 0)
  else if issuerSD.getBalance = 0 ∨ issuerSD.getBalance < t.mErgLimit * t.mErgPrice then (.invalidBalance, 0)
  else
    let call := scriptCallOf S t block.keyHeight receiptID (some block) false confirmedDomainID
    ((S.processScript call l).1.mResult, (S.processScript call l).1.mERGUsed)

variable {S : NodeServices} {DB : Type} {T : LedgerTrie DB}

/-- The receipt that the block has for the transaction of a turn says what its processing yields. -/
def TruthfulTurn (S : NodeServices) (T : LedgerTrie DB) (turn : BlockTurn (TransactionManager DB)) : Prop :=
  ∃ blockReceipt processed m,
    turn.before.proposal.getReceiptForTransaction (S.getHash turn.transaction.toCTransaction) = some blockReceipt ∧
    (managerCalls S T).processTransaction turn.before.manager (S.getHash turn.transaction.toCTransaction)
      turn.transaction turn.before.proposal.keyHeight blockReceipt.mGUID (some blockReceipt)
      (some turn.before.proposal) false false = .ok (processed, m) ∧
    blockReceipt.mResult = processed.receipt.mResult ∧ blockReceipt.mERGUsed = processed.receipt.mERGUsed

/-- The receipt says what is due over the domains before the turn. -/
def DueTurn (S : NodeServices) (T : LedgerTrie DB) (turn : BlockTurn (TransactionManager DB)) : Prop :=
  ∃ blockReceipt confirmedDomainID issuerSD,
    turn.before.proposal.getReceiptForTransaction (S.getHash turn.transaction.toCTransaction) = some blockReceipt ∧
    authenticate S (turn.ledger T) turn.transaction true = .ok (confirmedDomainID, issuerSD) ∧
    (blockReceipt.mResult, blockReceipt.mERGUsed) =
      dueOutcome S (turn.ledger T) turn.transaction turn.before.proposal blockReceipt.mGUID confirmedDomainID issuerSD

/-- An accepted block to whose fees the end of the flow does not object. -/
structure PassedBlock (S : NodeServices) {DB : Type} (T : LedgerTrie DB) extends AcceptedBlock S T where
  fees : finish.mTotalGNCFees = (finish.receipts.map CReceipt.fee).sum

/-- What the verdict on the issuer comes to. An ill-formed sacrifice gets a receipt that names no transaction. -/
theorem outcome_of_judgeIssuer {l : Ledger} {t : PoolTransaction} {block : CBlockProposal} {receiptID : Bytes}
    {existingReceipt : Option CReceipt} {confirmedDomainID : Bytes} {issuerSD : StateDomain} {processed : Processed}
    (hcarry : carryOut S l t block.keyHeight receiptID existingReceipt (some block) false
      (judgeIssuer S t block.keyHeight false false confirmedDomainID issuerSD) = .ok processed)
    (hsame : memcmpEq processed.receipt.mVerifiableID (S.getHash t.toCTransaction) 32 = .ok true) :
    (processed.receipt.mResult, processed.receipt.mERGUsed) =
      dueOutcome S l t block receiptID confirmedDomainID issuerSD := by
  unfold judgeIssuer at hcarry
  unfold dueOutcome
  by_cases hnonce : issuerSD.mNonce + 1 ≠ t.mNonce
  · rw [if_pos ⟨hnonce, rfl⟩] at hcarry
    obtain rfl := Except.ok.inj hcarry
    rw [if_pos hnonce]
    rfl
  rw [if_neg fun h => hnonce h.1, if_neg Bool.false_ne_true] at hcarry
  rw [if_neg hnonce]
  by_cases hprice : t.mErgPrice = 0 ∨ t.mErgPrice < S.getMinNodeERGPrice block.keyHeight
  · rw [if_pos hprice] at hcarry
    obtain rfl := Except.ok.inj hcarry
    rw [if_pos hprice]
    rfl
  rw [if_neg hprice] at hcarry ⊢
  by_cases hzero : issuerSD.getBalance = 0
  · rw [if_pos hzero] at hcarry
    obtain rfl := Except.ok.inj hcarry
    rw [if_pos (Or.inl hzero)]
    rfl
  rw [if_neg hzero] at hcarry
  by_cases hcovered : issuerSD.getBalance < t.mErgLimit * t.mErgPrice
  · rw [if_pos hcovered] at hcarry
    obtain rfl := Except.ok.inj hcarry
    rw [if_pos (Or.inr hcovered)]
    rfl
  rw [if_neg hcovered] at hcarry
  rw [if_neg (not_or.mpr ⟨hzero, hcovered⟩)]
  split_ifs at hcarry
  · obtain rfl := Except.ok.inj hcarry
    cases hsame
  · obtain rfl := Except.ok.inj hcarry
    rfl

/-- A verified transaction comes to what is due. -/
theorem Verified.outcome {st : BlockState LedgerFlow} {t : PoolTransaction} {blockReceipt : CReceipt}
    {processed : Processed} {l : Ledger} (hverified : Verified S st t blockReceipt processed l)
    (hplain : st.proposal.isCheckpointed = false) :
    ∃ confirmedDomainID issuerSD,
      authenticate S st.manager.current t true = .ok (confirmedDomainID, issuerSD) ∧
      (processed.receipt.mResult, processed.receipt.mERGUsed) =
        dueOutcome S st.manager.current t st.proposal blockReceipt.mGUID confirmedDomainID issuerSD := by
  rcases processOver_cases hverified.processes with ⟨hnone, -⟩ | ⟨issuerSD, -, -, hauth, hcarry⟩
  · exact absurd hnone hverified.confirmed
  · rw [nonceExcused_of_not_checkpointed hplain] at hcarry
    exact ⟨_, issuerSD, hauth, outcome_of_judgeIssuer hcarry hverified.sameID⟩

/-- In a turn of an accepted block the receipt is truthful exactly if it says what is due. -/
theorem VerifiedTurn.truthful_iff (hT : T.Documented) {turn : BlockTurn (TransactionManager DB)}
    (hverified : VerifiedTurn S T turn) (hplain : turn.before.proposal.isCheckpointed = false) :
    TruthfulTurn S T turn ↔ DueTurn S T turn := by
  obtain ⟨f, blockReceipt, processed, l, hholds, hverified, -, -⟩ := hverified
  have hledger : turn.ledger T = f.current := hholds.current
  have hlisted : turn.before.proposal.getReceiptForTransaction (S.getHash turn.transaction.toCTransaction) =
    some blockReceipt := hverified.listed
  obtain ⟨confirmedDomainID, issuerSD, hauth, houtcome⟩ := hverified.outcome hplain
  have hauth' : authenticate S (turn.ledger T) turn.transaction true = .ok (confirmedDomainID, issuerSD) := by
    rw [hledger]
    exact hauth
  obtain ⟨m, hprocess⟩ : ∃ m, (managerCalls S T).processTransaction turn.before.manager
      (S.getHash turn.transaction.toCTransaction) turn.transaction turn.before.proposal.keyHeight blockReceipt.mGUID
      (some blockReceipt) (some turn.before.proposal) false false = .ok (processed, m) := by
    have halike := TransactionManager.processTransaction_alike (S := S) hT hholds
      (S.getHash turn.transaction.toCTransaction) turn.transaction turn.before.proposal.keyHeight blockReceipt.mGUID
      (some blockReceipt) (some turn.before.proposal) false false
    have hcall : (LedgerFlow.calls S).processTransaction f (S.getHash turn.transaction.toCTransaction)
        turn.transaction turn.before.proposal.keyHeight blockReceipt.mGUID (some blockReceipt)
        (some turn.before.proposal) false false = .ok (processed, f.after processed) := by
      show f.process S turn.transaction turn.before.proposal.keyHeight blockReceipt.mGUID (some blockReceipt)
        (some turn.before.proposal) false false = _
      have hprocesses := hverified.processes
      rw [process_existing]
      dsimp only [BlockState.over] at hprocesses
      rw [hprocesses]
    obtain ⟨⟨processed', m⟩, hprocess, hsame, -⟩ := halike.eq_of_ok hcall
    dsimp only at hsame
    exact ⟨m, hsame ▸ hprocess⟩
  have houtcome' : (processed.receipt.mResult, processed.receipt.mERGUsed) =
      dueOutcome S (turn.ledger T) turn.transaction turn.before.proposal blockReceipt.mGUID confirmedDomainID
        issuerSD := by
    rw [hledger]
    exact houtcome
  constructor
  · rintro ⟨receipt, again, m', hreceipt, hagain, hresult, hused⟩
    obtain rfl := Option.some.inj (hlisted.symm.trans hreceipt)
    obtain ⟨rfl, -⟩ := Prod.mk.inj (Except.ok.inj (hprocess.symm.trans hagain))
    exact ⟨_, _, _, hlisted, hauth', by rw [hresult, hused, houtcome']⟩
  · rintro ⟨receipt, domainID, sd, hreceipt, hsd, hdue⟩
    obtain rfl := Option.some.inj (hlisted.symm.trans hreceipt)
    obtain ⟨rfl, rfl⟩ := Prod.mk.inj (Except.ok.inj (hauth'.symm.trans hsd))
    obtain ⟨hresult, hused⟩ := Prod.mk.inj (hdue.trans houtcome'.symm)
    exact ⟨_, _, _, hlisted, hprocess, hresult, hused⟩

/-- Every transaction of an accepted block had a turn, in which its receipt is truthful exactly if it says what is
due. -/
theorem AcceptedBlock.truthful_iff (hT : T.Documented) (b : AcceptedBlock S T) :
    (b.turns.map fun turn => turn.transaction.toCTransaction) = b.start.proposal.transactions ∧
      ∀ turn ∈ b.turns, TruthfulTurn S T turn ↔ DueTurn S T turn := by
  obtain ⟨hturns, st, hrun, -⟩ := b.verifiedRun hT
  constructor
  · rw [← b.listed, ← hturns, List.map_map]
    rfl
  · intro turn hmem
    refine (hrun.verified turn hmem).truthful_iff hT ?_
    rw [hrun.proposals turn hmem]
    exact b.notCheckpointed

end Transactions

/-! ### Verifiables -/

section Verifiables

variable {Trie : Type} {S : RewardServices Trie} {mode : ProcessingMode} {chain : ChainView} {keyHeight : UInt64}
  {running : ℕ → Bool}

/-- The turns of a run: each verifiable with the flow that it finds. -/
def verifiableTurns (S : RewardServices Trie) (mode : ProcessingMode) (chain : ChainView) (keyHeight : UInt64)
    (running : ℕ → Bool) : List PoolVerifiable → VerifiableFlow → List (PoolVerifiable × VerifiableFlow)
  | [], _ => []
  | v :: vs, flow =>
      if running vs.length then
        (v, flow) ::
          match verifiableTurn S mode chain keyHeight v flow with
          | .ok (.proceed, _, flow') => verifiableTurns S mode chain keyHeight running vs flow'
          | _ => []
      else []

/-- The verifiables of the block pass. -/
def VerifiablesPass (S : RewardServices Trie) (mode : ProcessingMode) (chain : ChainView) (keyHeight : UInt64)
    (running : ℕ → Bool) (flow : VerifiableFlow) : Prop :=
  ∃ vs' flow', processVerifiables S mode chain keyHeight running (inFlowVerifiables flow.block) flow =
    .ok (true, vs', flow')

/-- A verifiable of the block is processed to a receipt, and has one in the block. -/
structure ProcessedTurn (S : RewardServices Trie) (chain : ChainView) (keyHeight : UInt64)
    (turn : PoolVerifiable × VerifiableFlow) (blockReceipt receipt : CReceipt) : Prop where
  listed : turn.2.block.getReceiptForVerifiable (S.getHash turn.1.toCVerifiable) = some blockReceipt
  processed : ∃ armed st, verifyActuateAndArm S.toVerifiableServices chain turn.2.toRewardState.mInFlowLinks
      turn.2.block.toRewardedBlock turn.1.copied turn.2.toRewardState.rewardValidatedUpToNow = .ok (some armed) ∧
    processVerifiable S chain keyHeight turn.2.block.toRewardedBlock armed blockReceipt.mGUID turn.2.toRewardState =
      .ok (receipt, st)

/-- The turns of the verification of a block's verifiables. -/
def turnsOfVerifiables (S : RewardServices Trie) (mode : ProcessingMode) (chain : ChainView) (keyHeight : UInt64)
    (running : ℕ → Bool) (flow : VerifiableFlow) : List (PoolVerifiable × VerifiableFlow) :=
  verifiableTurns S mode chain keyHeight running (inFlowVerifiables flow.block) { flow with addToBlock := mode.addToBlock }

variable {v v' : PoolVerifiable} {flow flow' : VerifiableFlow} {vs vs' : List PoolVerifiable}

/-- A verifiable that was let pass has a receipt in the block with the result of its processing. -/
theorem processed_of_verifiableTurn (hverify : mode.verifyAgainstBlock = true)
    (hunmarked : v.HotProperties.markedAsProcessed = false)
    (hturn : verifiableTurn S mode chain keyHeight v flow = .ok (.proceed, v', flow')) :
    ∃ blockReceipt receipt, ProcessedTurn S chain keyHeight (v, flow) blockReceipt receipt ∧
      blockReceipt.mResult = receipt.mResult := by
  unfold verifiableTurn at hturn
  rw [if_neg (by rw [hunmarked]; exact Bool.false_ne_true)] at hturn
  split_ifs at hturn
  · cases hturn
  · cases hjudge : judgeVerifiable S mode chain keyHeight v flow with
    | error e =>
        rw [hjudge] at hturn
        cases hturn
    | ok judged =>
        obtain ⟨turn, v₁, flow₁⟩ := judged
        rw [hjudge] at hturn
        cases turn with
        | reject => cases hturn
        | proceed =>
            unfold judgeVerifiable at hjudge
            split at hjudge
            case h_1 => cases hjudge
            case h_2 =>
              rw [if_pos hverify] at hjudge
              cases hjudge
            case h_3 armed harmed =>
              split at hjudge
              case h_1 => cases hjudge
              case h_2 blockReceipt hlisted =>
                split at hjudge
                case h_1 => cases hjudge
                case h_2 receipt st hprocess =>
                  have hreceiptID : receiptIDForVerifiable S mode blockReceipt v.toCVerifiable = blockReceipt.mGUID :=
                    if_pos hverify
                  unfold blockReceiptForVerifiable at hlisted
                  rw [if_pos hverify] at hlisted
                  rw [hreceiptID] at hprocess
                  refine ⟨blockReceipt, receipt, ⟨hlisted, armed, st, harmed, hprocess⟩, ?_⟩
                  by_contra hdiffers
                  unfold afterProcessing at hjudge
                  rw [if_pos ⟨hverify, Ne.symm hdiffers⟩] at hjudge
                  cases hjudge

/-- In a run that passes every verifiable is let pass. -/
theorem verifiableTurns_proceed {running : ℕ → Bool}
    (hloop : verifiableLoop S mode chain keyHeight running vs flow = .ok (true, vs', flow'))
    {turn : PoolVerifiable × VerifiableFlow} (hmem : turn ∈ verifiableTurns S mode chain keyHeight running vs flow) :
    turn.1 ∈ vs ∧ ∃ v' after, verifiableTurn S mode chain keyHeight turn.1 turn.2 = .ok (.proceed, v', after) := by
  induction vs generalizing flow vs' with
  | nil => cases hmem
  | cons v vs ih =>
      unfold verifiableLoop at hloop
      unfold verifiableTurns at hmem
      split_ifs at hloop hmem
      · cases hturn : verifiableTurn S mode chain keyHeight v flow with
        | error e =>
            rw [hturn] at hloop
            cases hloop
        | ok outcome =>
            obtain ⟨ending, v₁, flow₁⟩ := outcome
            rw [hturn] at hloop hmem
            cases ending with
            | reject => cases hloop
            | proceed =>
                rcases List.mem_cons.mp hmem with rfl | hmem
                · exact ⟨List.mem_cons_self, v₁, flow₁, hturn⟩
                · dsimp only at hloop
                  cases hrest : verifiableLoop S mode chain keyHeight running vs flow₁ with
                  | error e =>
                      rw [hrest] at hloop
                      cases hloop
                  | ok result =>
                      obtain ⟨answer, rest, flow₂⟩ := result
                      rw [hrest] at hloop
                      cases hloop
                      obtain ⟨hin, hproceeds⟩ := ih hrest hmem
                      exact ⟨List.mem_cons_of_mem _ hin, hproceeds⟩
      · cases hmem

/-- The results of the verifiables of a block that passes are those of their processing. -/
theorem verifiable_results_truthful (hverify : mode.verifyAgainstBlock = true)
    (hpass : VerifiablesPass S mode chain keyHeight running flow) {turn : PoolVerifiable × VerifiableFlow}
    (hmem : turn ∈ turnsOfVerifiables S mode chain keyHeight running flow) :
    ∃ blockReceipt receipt, ProcessedTurn S chain keyHeight turn blockReceipt receipt ∧
      blockReceipt.mResult = receipt.mResult := by
  obtain ⟨vs', flow', hprocess⟩ := hpass
  obtain ⟨hin, v', after, hturn⟩ := verifiableTurns_proceed hprocess hmem
  obtain ⟨v, -, hv⟩ := List.mem_map.mp hin
  have hunmarked : turn.1.HotProperties.markedAsProcessed = false := by
    rw [← hv]
  exact processed_of_verifiableTurn hverify hunmarked hturn

/-- The receipt that the block has for the verifiable of a turn says what its processing yields. -/
def TruthfulVerifiable (S : RewardServices Trie) (chain : ChainView) (keyHeight : UInt64)
    (turn : PoolVerifiable × VerifiableFlow) : Prop :=
  ∃ blockReceipt receipt, ProcessedTurn S chain keyHeight turn blockReceipt receipt ∧
    blockReceipt.mResult = receipt.mResult ∧ blockReceipt.mERGUsed = receipt.mERGUsed

/-- The receipt claims no ERG. -/
def ClaimsNoERG (S : RewardServices Trie) (turn : PoolVerifiable × VerifiableFlow) : Prop :=
  ∀ receipt, turn.2.block.getReceiptForVerifiable (S.getHash turn.1.toCVerifiable) = some receipt →
    receipt.mERGUsed = 0

/-- Verifiables use no ERG. -/
theorem ProcessedTurn.mERGUsed {turn : PoolVerifiable × VerifiableFlow} {blockReceipt receipt : CReceipt}
    (h : ProcessedTurn S chain keyHeight turn blockReceipt receipt) : receipt.mERGUsed = 0 := by
  obtain ⟨armed, st, -, hprocess⟩ := h.processed
  unfold processVerifiable at hprocess
  dsimp only at hprocess
  split at hprocess
  · cases hprocess
  · obtain ⟨rfl, -⟩ := Prod.mk.inj (Except.ok.inj hprocess)
    rfl

/-- In a block whose verifiables pass, the receipt of one is truthful exactly if it claims no ERG. -/
theorem truthfulVerifiable_iff (hverify : mode.verifyAgainstBlock = true)
    (hpass : VerifiablesPass S mode chain keyHeight running flow) {turn : PoolVerifiable × VerifiableFlow}
    (hmem : turn ∈ turnsOfVerifiables S mode chain keyHeight running flow) :
    TruthfulVerifiable S chain keyHeight turn ↔ ClaimsNoERG S turn := by
  obtain ⟨blockReceipt, receipt, hturn, hresult⟩ := verifiable_results_truthful hverify hpass hmem
  constructor
  · rintro ⟨listed, again, hagain, -, hused⟩ found hfound
    obtain rfl := Option.some.inj (hagain.listed.symm.trans hfound)
    exact hused.trans hagain.mERGUsed
  · intro hnone
    exact ⟨blockReceipt, receipt, hturn, hresult, (hnone _ hturn.listed).trans hturn.mERGUsed.symm⟩

end Verifiables

/-! ### Blocks -/

/-- **In a block that passes, every transaction had a turn, in which its receipt is truthful exactly if it says what
the checks of the issuer, or else the script, come to over the domains of that turn; and the receipt of a verifiable
that was taken up is truthful exactly if it claims no ERG.** -/
theorem receipts_truthful_iff {S : NodeServices} {DB Trie : Type} {T : LedgerTrie DB} (hT : T.Documented)
    (b : PassedBlock S T) (R : RewardServices Trie) (chain : ChainView) (keyHeight : UInt64) (running : ℕ → Bool)
    {mode : ProcessingMode} (hverify : mode.verifyAgainstBlock = true) {flow : VerifiableFlow}
    (hpass : VerifiablesPass R mode chain keyHeight running flow) :
    (b.turns.map fun turn => turn.transaction.toCTransaction) = b.start.proposal.transactions ∧
    ((∀ turn ∈ b.turns, TruthfulTurn S T turn) ↔ ∀ turn ∈ b.turns, DueTurn S T turn) ∧
    ((∀ turn ∈ turnsOfVerifiables R mode chain keyHeight running flow, TruthfulVerifiable R chain keyHeight turn) ↔
      ∀ turn ∈ turnsOfVerifiables R mode chain keyHeight running flow, ClaimsNoERG R turn) := by
  obtain ⟨hturns, htruthful⟩ := b.truthful_iff hT
  exact ⟨hturns, forall₂_congr htruthful,
    forall₂_congr fun _ hmem => truthfulVerifiable_iff hverify hpass hmem⟩


section Samples

/-- The block of the sample transaction with a receipt of the given result. -/
def stampedBlock (mResult : eTransactionValidationResult) : BlockState (TransactionManager (Ledger × Bytes)) where
  manager := sampleFlow
  proposal := {
    transactions := [(sampleTransaction 1).toCTransaction]
    receipts := [
      { mGUID := sampleServices.getHash (sampleTransaction 1).toCTransaction
        mVerifiableID := sampleServices.getHash (sampleTransaction 1).toCTransaction
        mResult
        mERGUsed := 5
        mERGPrice := 1 }] }

/-- It passes, and has one turn, which starts from the sample domains. -/
theorem stampedBlock_passes (mResult : eTransactionValidationResult)
    (hpasses : ((processTransactions sampleServices verifyMode (managerCalls sampleServices sampleTrie)
      (fun _ => true) [sampleTransaction 1] [] (stampedBlock mResult)).toOption.map fun answer =>
        (answer.1, decide (answer.2.2.mTotalGNCFees = (answer.2.2.receipts.map CReceipt.fee).sum))) =
      some (true, true)) :
    ∃ b : PassedBlock sampleServices sampleTrie, b.start = stampedBlock mResult ∧
      ∃ turn, b.turns = [turn] ∧ turn.transaction = sampleTransaction 1 ∧
        turn.before = (stampedBlock mResult).begun := by
  obtain ⟨⟨accepted, marked, finish⟩, hresult, hboth⟩ := Option.map_eq_some_iff.mp hpasses
  obtain ⟨haccepted, hfees⟩ := Prod.mk.inj hboth
  dsimp only at haccepted hfees
  subst haccepted
  let b : PassedBlock sampleServices sampleTrie :=
    { mode := verifyMode
      running := fun _ => true
      transactions := [sampleTransaction 1]
      unprocessed := []
      start := stampedBlock mResult
      marked
      finish
      verifies := rfl
      notCheckpointed := rfl
      listed := rfl
      ready := sampleFlow_ready
      accepted := toOption_eq_some.mp hresult
      fees := of_decide_eq_true hfees }
  obtain ⟨hturns, st, hrun, -⟩ := b.verifiedRun sampleTrie_documented
  obtain ⟨turn, hone, htransaction⟩ := List.map_eq_singleton_iff.mp hturns
  have hlinked := hrun.linked
  rw [hone] at hlinked
  exact ⟨b, rfl, turn, hone, htransaction, hlinked.1⟩

/-- The transaction is due, and its script uses five ERG: a receipt of five ERG is truthful if it calls the transaction
valid. -/
theorem dueTurn_stamped {mResult : eTransactionValidationResult}
    {turn : BlockTurn (TransactionManager (Ledger × Bytes))} (htransaction : turn.transaction = sampleTransaction 1)
    (hbefore : turn.before = (stampedBlock mResult).begun) :
    DueTurn sampleServices sampleTrie turn ↔ mResult = .valid := by
  have hledger : turn.ledger sampleTrie = sampleLedger := by
    rw [BlockTurn.ledger, hbefore]
    rfl
  have hlisted : turn.before.proposal.getReceiptForTransaction
      (sampleServices.getHash turn.transaction.toCTransaction) = (stampedBlock mResult).proposal.receipts.head? := by
    rw [htransaction, hbefore]
    rfl
  have hauth : authenticate sampleServices (turn.ledger sampleTrie) turn.transaction true =
      .ok (sampleAddress 1, { assetType := .BigInt, assetValue := 500, IDToken := some (sampleKey 1) }) := by
    rw [hledger, htransaction]
    rfl
  constructor
  · rintro ⟨receipt, domainID, issuerSD, hreceipt, hsd, hdue⟩
    obtain ⟨rfl, rfl⟩ := Prod.mk.inj (Except.ok.inj (hauth.symm.trans hsd))
    obtain rfl := Option.some.inj (hlisted.symm.trans hreceipt)
    rw [hledger, htransaction, hbefore] at hdue
    exact congrArg Prod.fst hdue
  · rintro rfl
    refine ⟨_, _, _, hlisted, hauth, ?_⟩
    rw [hledger, htransaction, hbefore]
    rfl

/-- A receipt that claims no ERG for the proof that the sample chain takes. -/
def stampedReceipt : CReceipt where
  mVerifiableID := sampleRewards.getHash forgedProof.toCVerifiable
  mResult := .valid

/-- A data block with that proof. -/
def stampedProof : VerifiableFlow where
  block := {
    verifiables := [forgedProof.toCVerifiable]
    verifiableReceipts := [stampedReceipt] }
  toRewardState := sampleRewardState
  addToBlock := false

/-- It passes. -/
theorem stampedProof_passes :
    VerifiablesPass sampleRewards verifyMode sampleChain 0 (fun _ => true) stampedProof := by
  have hpasses : (processVerifiables sampleRewards verifyMode sampleChain 0 (fun _ => true)
      (inFlowVerifiables stampedProof.block) stampedProof).toOption.map (fun processed => processed.1) = some true := by
    decide +kernel
  obtain ⟨⟨answer, vs', flow'⟩, hrun, rfl⟩ := exists_ok_of_toOption _ _ hpasses
  exact ⟨vs', flow', hrun⟩

/-- Its proof is taken up, and it alone. -/
theorem turnsOf_stampedProof :
    turnsOfVerifiables sampleRewards verifyMode sampleChain 0 (fun _ => true) stampedProof =
      [(forgedProof, stampedProof)] := by
  show verifiableTurns sampleRewards verifyMode sampleChain 0 (fun _ => true) [forgedProof] stampedProof = _
  unfold verifiableTurns
  rw [if_pos rfl]
  split <;> rfl

theorem claimsNoERG_stampedProof : ClaimsNoERG sampleRewards (forgedProof, stampedProof) := by
  intro receipt hfound
  obtain rfl : receipt = stampedReceipt := List.mem_singleton.mp (List.mem_of_find?_eq_some hfound)
  rfl

/-- Honest receipts, of a transaction and of a proof. -/
theorem receipts_truthful_stamped :
    ∃ b : PassedBlock sampleServices sampleTrie, b.start = stampedBlock .valid ∧
      (∃ turn ∈ b.turns, TruthfulTurn sampleServices sampleTrie turn) ∧
      TruthfulVerifiable sampleRewards sampleChain 0 (forgedProof, stampedProof) := by
  obtain ⟨b, hstart, turn, hone, htransaction, hbefore⟩ := stampedBlock_passes .valid (by decide +kernel)
  obtain ⟨-, hturns, hverifiables⟩ := receipts_truthful_iff sampleTrie_documented b sampleRewards sampleChain 0
    (fun _ => true) rfl stampedProof_passes
  rw [hone] at hturns
  rw [turnsOf_stampedProof] at hverifiables
  refine ⟨b, hstart, ⟨turn, by rw [hone]; exact List.mem_singleton_self turn, ?_⟩, ?_⟩
  · refine hturns.mpr ?_ turn (List.mem_singleton_self turn)
    intro one hmem
    obtain rfl := List.mem_singleton.mp hmem
    exact (dueTurn_stamped htransaction hbefore).mpr rfl
  · refine hverifiables.mpr ?_ _ (List.mem_singleton_self _)
    intro one hmem
    obtain rfl := List.mem_singleton.mp hmem
    exact claimsNoERG_stampedProof

/-- A block that calls its transaction invalid passes too. -/
theorem deceptive_receipt_passes :
    ∃ b : PassedBlock sampleServices sampleTrie, b.start = stampedBlock .invalid ∧
      ∃ turn ∈ b.turns, ¬TruthfulTurn sampleServices sampleTrie turn := by
  obtain ⟨b, hstart, turn, hone, htransaction, hbefore⟩ :=
    stampedBlock_passes .invalid (by decide +kernel)
  have hmem : turn ∈ b.turns := by
    rw [hone]
    exact List.mem_singleton_self turn
  refine ⟨b, hstart, turn, hmem, fun htruthful => ?_⟩
  have hdue := ((b.truthful_iff sampleTrie_documented).2 turn hmem).mp htruthful
  cases (dueTurn_stamped htransaction hbefore).mp hdue

end Samples

end Gridnet
