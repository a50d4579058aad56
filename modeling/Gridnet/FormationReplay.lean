import Gridnet.BlockVerification
import Gridnet.FormationAccounting
import Gridnet.ListUpdate

/-! A block that was formed is verified from the state in which its formation began: each turn that
included a transaction is repeated by one that verifies it. -/

namespace Gridnet

open TransactionManager

/-- A transaction of a block as other nodes receive it: the marks of the pool are not part of it. -/
def PoolTransaction.received (t : PoolTransaction) : PoolTransaction := { t with HotProperties := {} }

/-- The pool has a receipt ID for the transaction, for which no source code is rewritten in the block. -/
structure PooledReceipt (S : NodeServices) (block : CBlockProposal) (t : PoolTransaction) : Prop where
  length : 32 ≤ (poolReceiptID S (S.getHash t.toCTransaction)).length
  source : S.rewrittenSource (some block) (poolReceiptID S (S.getHash t.toCTransaction)) = none

/-- What the proposal and the block that is verified share. -/
structure SameHeights (proposal block : CBlockProposal) : Prop where
  height : block.height = proposal.height
  keyHeight : block.keyHeight = proposal.keyHeight

section Turn

variable {S : NodeServices} {l : Ledger} {st : BlockState LedgerFlow} {t : PoolTransaction}
  {processed : Processed} {block : CBlockProposal}

/-- Who is authenticated for a new transaction is authenticated for one of a block. -/
theorem authenticate_inBlock {confirmedDomainID : Bytes} {issuerSD : StateDomain}
    (hauth : authenticate S l t false = .ok (confirmedDomainID, issuerSD)) :
    authenticate S l t true = .ok (confirmedDomainID, issuerSD) := by
  obtain ⟨pubKey, hkey, hrest⟩ := authenticate_eq_ok_iff.mp hauth
  obtain ⟨hfound, -⟩ := resolveKey_eq_ok_iff.mp hkey
  exact authenticate_eq_ok_iff.mpr
    ⟨pubKey, resolveKey_eq_ok_iff.mpr ⟨hfound, Or.inr (Or.inl rfl)⟩, hrest⟩

/-- The receipt of an included transaction has the ID of the pool, and the transaction is processed
alike where it is verified against this receipt. -/
theorem processOver_received (hincluded : Included S st t processed l)
    (hckpt : block.isCheckpointed = false) (hheights : SameHeights st.proposal block)
    (hpooled : PooledReceipt S block t) :
    processed.receipt.mGUID = poolReceiptID S (S.getHash t.toCTransaction) ∧
      processOver S st.manager.current t.received block.keyHeight processed.receipt.mGUID
        (some processed.receipt) (some block) false false =
          .ok { processed with transaction := t.received } := by
  obtain ⟨issuerSD, hmatch, hauth, hexecute⟩ := executed_of_kept hincluded.toProcesses
    hincluded.sameID hincluded.kept hincluded.confirmed
  have hmatch' : keyMatchesIssuer S t.received = .ok true := hmatch
  have hauth' : authenticate S st.manager.current t.received true =
      .ok (processed.confirmedDomainID, issuerSD) := authenticate_inBlock hauth
  have hexecute' : judgeIssuer S t.received st.proposal.keyHeight false false
      processed.confirmedDomainID issuerSD = .execute processed.confirmedDomainID := hexecute
  have hprocess := hincluded.processes
  have hfresh : nonceExcused none none = false := rfl
  unfold processOver judge at hprocess
  rw [hmatch] at hprocess
  dsimp only at hprocess
  rw [Option.isSome_none, hauth] at hprocess
  dsimp only at hprocess
  rw [hfresh, hexecute] at hprocess
  have hresult := Except.ok.inj hprocess
  have hguid : processed.receipt.mGUID = poolReceiptID S (S.getHash t.toCTransaction) := by
    rw [← hresult]
    exact if_pos hpooled.length
  have hcall : scriptCallOf S t.received st.proposal.keyHeight
      (poolReceiptID S (S.getHash t.toCTransaction)) (some block) false processed.confirmedDomainID =
      scriptCallOf S t st.proposal.keyHeight (poolReceiptID S (S.getHash t.toCTransaction)) none false
        processed.confirmedDomainID := by
    unfold scriptCallOf
    rw [hpooled.source]
    rfl
  refine ⟨hguid, ?_⟩
  rw [hguid, hheights.keyHeight]
  unfold processOver judge
  rw [hmatch']
  dsimp only
  rw [Option.isSome_some, hauth']
  dsimp only
  rw [nonceExcused_of_not_checkpointed hckpt, hexecute']
  dsimp only [carryOut]
  rw [hcall]
  conv_rhs => rw [← hresult]
  rfl

/-- What is charged depends on the block through its heights. -/
theorem chargeOver_heights {proposal : CBlockProposal} (hheights : SameHeights proposal block)
    {l : Ledger} (receipt : CReceipt) (receiptID : Bytes) (confirmedDomainID : Bytes) :
    LedgerFlow.chargeOver S l t receipt receiptID false block confirmedDomainID =
      LedgerFlow.chargeOver S l t receipt receiptID false proposal confirmedDomainID := by
  have hsource : S.rewrittenSource (some block) receiptID =
      S.rewrittenSource (some proposal) receiptID := by
    unfold NodeServices.rewrittenSource
    dsimp only
    rw [hheights.height]
  have hstats : S.statsEntry t.mCode block.keyHeight receiptID (some block) =
      S.statsEntry t.mCode proposal.keyHeight receiptID (some proposal) := by
    unfold NodeServices.statsEntry
    rw [hsource, hheights.keyHeight]
  unfold LedgerFlow.chargeOver noteReceipt
  rw [hstats]

/-- An included transaction is verified over the same domains, if the block has its receipt. -/
theorem verified_of_included {sv : BlockState LedgerFlow} (hincluded : Included S st t processed l)
    (hcurrent : sv.manager.current = st.manager.current)
    (hckpt : sv.proposal.isCheckpointed = false) (hheights : SameHeights st.proposal sv.proposal)
    (hpooled : PooledReceipt S sv.proposal t)
    (hlisted : sv.proposal.getReceiptForTransaction (S.getHash t.toCTransaction) =
      some processed.receipt) :
    Verified S sv t.received processed.receipt { processed with transaction := t.received } l := by
  obtain ⟨hguid, hprocess⟩ := processOver_received hincluded hckpt hheights hpooled
  have hkept : includedReceipt processed.receipt = processed.receipt := by
    rw [includedReceipt, ← hincluded.kept]
  have hbase : Processed.base { processed with transaction := t.received } st.manager.current =
      processed.base st.manager.current := rfl
  refine ⟨hlisted, ?_, hincluded.sameID, hincluded.confirmed, ?_⟩
  · rw [hcurrent]
    exact hprocess
  · rw [hcurrent, hbase, hguid]
    dsimp only
    calc
      LedgerFlow.chargeOver S (processed.base st.manager.current) t.received
          (includedReceipt processed.receipt) (poolReceiptID S (S.getHash t.toCTransaction)) false
          sv.proposal processed.confirmedDomainID =
        LedgerFlow.chargeOver S (processed.base st.manager.current) t processed.receipt
          (poolReceiptID S (S.getHash t.toCTransaction)) false sv.proposal
          processed.confirmedDomainID := by
        rw [hkept]
        exact LedgerFlow.chargeOver_congr rfl ..
      _ = chargeFor S st t processed := chargeOver_heights hheights ..
      _ = .ok (some l) := hincluded.charged

end Turn

/-! ### A run that is repeated -/

/-- Two states of a run that forms a block and of one that verifies it: the same domains and counters. -/
structure KeepsStep (st sv : BlockState LedgerFlow) : Prop where
  current : sv.manager.current = st.manager.current
  counters : SameCounters st sv

section Run

variable {S : NodeServices} {st : BlockState LedgerFlow} {t : PoolTransaction}
  {processed : Processed} {l : Ledger} {mode : ProcessingMode} {sv : BlockState LedgerFlow}

theorem withinLimits_congr {M N : Type} {st : BlockState M} {sv : BlockState N}
    (hcounters : SameCounters st sv) : withinLimits S sv = withinLimits S st := by
  unfold withinLimits
  rw [hcounters.size, hcounters.ERG]

/-- The turn that verifies an included transaction keeps step. -/
theorem processTurn_received (hverify : mode.verifyAgainstBlock = true)
    (hstep : KeepsStep st sv) (hckpt : sv.proposal.isCheckpointed = false)
    (hverified : Verified S sv t.received processed.receipt
      { processed with transaction := t.received } l)
    (hwithin : withinLimits S (st.tally S t processed.receipt) = true) :
    ∃ t' sv', processTurn S mode (LedgerFlow.calls S) sv t.received = .ok (.proceed, t', sv') ∧
      KeepsStep (includedState S st t processed l) sv' ∧ sv'.proposal = sv.proposal ∧
      sv'.countOfDomains = sv.countOfDomains + 1 := by
  have hcounters : SameCounters (includedState S st t processed l)
      (verifiedState S sv processed.receipt { processed with transaction := t.received } l) :=
    { size := congrArg (· + S.getPackedSize t.toCTransaction) hstep.counters.size
      ERG := congrArg (· + processed.receipt.mERGUsed) hstep.counters.ERG
      fees := congrArg (· + processed.receipt.fee) hstep.counters.fees }
  have hlimits : withinLimits S (verifiedState S sv processed.receipt
      { processed with transaction := t.received } l) = true :=
    (withinLimits_congr hcounters).trans hwithin
  exact ⟨_, _, hverified.turn hverify hckpt hlimits, ⟨rfl, hcounters⟩, rfl, rfl⟩

variable {DB : Type} {T : LedgerTrie DB} {block : CBlockProposal}

/-- The transactions that the turns have added, as they are received. -/
def addedBy {M : Type} (turns : List (BlockTurn M)) : List PoolTransaction :=
  (turns.filter fun turn =>
    turn.after.proposal.transactions ≠ turn.before.proposal.transactions).map
      fun turn => turn.transaction.received

theorem ne_of_added {α : Type} {l l' : List α} {a : α} (hadded : l' = l ++ [a]) : l' ≠ l := by
  rw [hadded]
  exact fun h => List.cons_ne_nil _ _ (List.append_right_eq_self.mp h)

theorem addedBy_cons_of_added {M : Type} {turn : BlockTurn M} (turns : List (BlockTurn M))
    {t : CTransaction}
    (hadded : turn.after.proposal.transactions = turn.before.proposal.transactions ++ [t]) :
    addedBy (turn :: turns) = turn.transaction.received :: addedBy turns := by
  rw [addedBy, List.filter_cons, if_pos (decide_eq_true (ne_of_added hadded)), List.map_cons,
    addedBy]

theorem addedBy_cons_of_same {M : Type} {turn : BlockTurn M} (turns : List (BlockTurn M))
    (hsame : turn.after.proposal.transactions = turn.before.proposal.transactions) :
    addedBy (turn :: turns) = addedBy turns := by
  rw [addedBy, List.filter_cons, if_neg (by rw [hsame, decide_eq_true_iff]; exact fun h => h rfl),
    addedBy]

/-- What the verification of a turn's transaction uses of the block. -/
structure Repeatable (S : NodeServices) (block : CBlockProposal) {M : Type} (turn : BlockTurn M) :
    Prop where
  within : withinLimits S turn.before = true
  heights : SameHeights turn.before.proposal block
  pooled : turn.after.proposal.transactions ≠ turn.before.proposal.transactions →
    PooledReceipt S block turn.transaction
  listed : ∀ receipt, turn.after.receipts = turn.before.receipts ++ [receipt] →
    block.getReceiptForTransaction (S.getHash turn.transaction.toCTransaction) = some receipt

/-- A run in order is repeated by the verification of what it added, turn by turn. -/
theorem processLoop_received (hverify : mode.verifyAgainstBlock = true)
    (hckpt : block.isCheckpointed = false) {turns : List (BlockTurn (TransactionManager DB))}
    {st st' : BlockState (TransactionManager DB)} {f : LedgerFlow} {sv : BlockState LedgerFlow}
    (hlinked : Linked st turns st') (hholds : st.manager.Holds T f)
    (heffect : ∀ turn ∈ turns, ∀ f, turn.before.manager.Holds T f → TurnEffect S T turn f)
    (hrepeat : ∀ turn ∈ turns, Repeatable S block turn)
    (hstep : KeepsStep (st.over f) sv) (hproposal : sv.proposal = block) :
    ∃ ts' sv' f', processLoop S (processTurn S mode (LedgerFlow.calls S)) (fun _ => true)
        (addedBy turns) sv = .ok (.proceed, ts', sv') ∧
      st'.manager.Holds T f' ∧ KeepsStep (st'.over f') sv' ∧ sv'.proposal = block ∧
      sv'.countOfDomains = sv.countOfDomains + (addedBy turns).length := by
  induction turns generalizing st f sv with
  | nil =>
      obtain rfl : st = st' := hlinked
      exact ⟨[], sv, f, rfl, hholds, hstep, hproposal, rfl⟩
  | cons turn turns ih =>
      obtain ⟨rfl, hrest⟩ := hlinked
      have hrest_effect := fun x hx => heffect x (List.mem_cons_of_mem _ hx)
      have hrest_repeat := fun x hx => hrepeat x (List.mem_cons_of_mem _ hx)
      have hturn := hrepeat turn List.mem_cons_self
      cases heffect turn List.mem_cons_self f hholds with
      | @included processed l hincluded hfunded hafter hholds' =>
          have hadded : turn.after.proposal.transactions =
              turn.before.proposal.transactions ++ [turn.transaction.toCTransaction] := by
            rw [hafter]
            rfl
          have hreceipts : turn.after.receipts = turn.before.receipts ++ [processed.receipt] := by
            rw [hafter]
            rfl
          have hpooled := hturn.pooled (ne_of_added hadded)
          have hverified : Verified S sv turn.transaction.received processed.receipt
              { processed with transaction := turn.transaction.received } l :=
            verified_of_included hincluded hstep.current (hproposal ▸ hckpt)
              (hproposal ▸ hturn.heights) (hproposal ▸ hpooled)
              (hproposal ▸ hturn.listed _ hreceipts)
          obtain ⟨t', sv₁, hprocess, hstep₁, hproposal₁, hcount₁⟩ :=
            processTurn_received hverify hstep (hproposal ▸ hckpt) hverified hincluded.within
          have hstep₁' : KeepsStep (turn.after.over
              (includedState S (turn.before.over f) turn.transaction processed l).manager) sv₁ := by
            refine ⟨hstep₁.current, ?_⟩
            rw [hafter]
            exact hstep₁.counters
          obtain ⟨ts', sv', f', hloop, hholds₂, hstep₂, hproposal₂, hcount₂⟩ :=
            ih hrest hholds' hrest_effect hrest_repeat hstep₁' (hproposal₁.trans hproposal)
          refine ⟨t' :: ts', sv', f', ?_, hholds₂, hstep₂, hproposal₂, ?_⟩
          · have hrun : (true = true) ∧ withinLimits S sv = true :=
              ⟨rfl, (withinLimits_congr hstep.counters).trans hturn.within⟩
            rw [addedBy_cons_of_added _ hadded, processLoop, if_pos hrun,
              if_neg (c := turn.transaction.received.HotProperties.markedAsProcessed = true)
                Bool.false_ne_true, hprocess]
            dsimp only
            rw [hloop]
          · rw [addedBy_cons_of_added _ hadded, hcount₂, hcount₁, List.length_cons]
            omega
      | @leftAlone f₁ hcurrent hholds' hkept hreceipts hcounters =>
          have hstep₁ : KeepsStep (turn.after.over f₁) sv :=
            { current := hstep.current.trans hcurrent.symm
              counters :=
                { size := hstep.counters.size.trans hcounters.size.symm
                  ERG := hstep.counters.ERG.trans hcounters.ERG.symm
                  fees := hstep.counters.fees.trans hcounters.fees.symm } }
          rw [addedBy_cons_of_same _ (congrArg CBlockProposal.transactions hkept)]
          exact ih hrest hholds' hrest_effect hrest_repeat hstep₁ hproposal

end Run

/-! ### What a run has added -/

/-- The receipts and transactions that were added, in order. -/
structure Adds (S : NodeServices) {M : Type} (st st' : BlockState M) (ts : List PoolTransaction) :
    Prop where
  receipts : ∃ receipts, st'.receipts = st.receipts ++ receipts ∧
    receipts.map CReceipt.mVerifiableID = ts.map fun t => S.getHash t.toCTransaction
  transactions : st'.proposal.transactions =
    st.proposal.transactions ++ ts.map PoolTransaction.toCTransaction
  heights : SameHeights st'.proposal st.proposal
  isCheckpointed : st'.proposal.isCheckpointed = st.proposal.isCheckpointed

section Added

variable {S : NodeServices} {DB : Type} {T : LedgerTrie DB}

theorem Adds.refl {M : Type} (st : BlockState M) : Adds S st st [] :=
  ⟨⟨[], (List.append_nil _).symm, rfl⟩, (List.append_nil _).symm, ⟨rfl, rfl⟩, rfl⟩

theorem Adds.trans {M : Type} {st st₁ st' : BlockState M} {ts ts' : List PoolTransaction}
    (hfirst : Adds S st st₁ ts) (hsecond : Adds S st₁ st' ts') : Adds S st st' (ts ++ ts') := by
  obtain ⟨receipts, hreceipts, hids⟩ := hfirst.receipts
  obtain ⟨receipts', hreceipts', hids'⟩ := hsecond.receipts
  refine ⟨⟨receipts ++ receipts', ?_, ?_⟩, ?_, ?_, ?_⟩
  · rw [hreceipts', hreceipts, List.append_assoc]
  · rw [List.map_append, hids, hids', List.map_append]
  · rw [hsecond.transactions, hfirst.transactions, List.map_append, List.append_assoc]
  · exact ⟨hfirst.heights.height.trans hsecond.heights.height,
      hfirst.heights.keyHeight.trans hsecond.heights.keyHeight⟩
  · exact hsecond.isCheckpointed.trans hfirst.isCheckpointed

/-- The receipt of an included transaction names it. -/
theorem Included.mVerifiableID {st : BlockState LedgerFlow} {t : PoolTransaction}
    {processed : Processed} {l : Ledger} (hincluded : Included S st t processed l) :
    processed.receipt.mVerifiableID = S.getHash t.toCTransaction := by
  rcases processOver_mVerifiableID hincluded.processes with hid | hid
  · exact hid
  · have hsame := hincluded.sameID
    rw [hid, memcmpEq, if_pos (Or.inl (by decide))] at hsame
    cases hsame

theorem TurnEffect.adds {turn : BlockTurn (TransactionManager DB)} {f : LedgerFlow}
    (heffect : TurnEffect S T turn f) : Adds S turn.before turn.after (addedBy [turn]) := by
  cases heffect with
  | @included processed l hincluded hfunded hafter hholds =>
      have hadded : turn.after.proposal.transactions =
          turn.before.proposal.transactions ++ [turn.transaction.toCTransaction] := by
        rw [hafter]
        rfl
      rw [addedBy_cons_of_added [] hadded]
      refine ⟨⟨[processed.receipt], ?_, congrArg (· :: []) hincluded.mVerifiableID⟩, hadded, ?_, ?_⟩
      · rw [hafter]
        rfl
      · rw [hafter]
        exact ⟨rfl, rfl⟩
      · rw [hafter]
        rfl
  | leftAlone hcurrent hholds hproposal hreceipts hcounters =>
      rw [addedBy_cons_of_same [] (congrArg CBlockProposal.transactions hproposal)]
      refine ⟨⟨[], ?_, rfl⟩, ?_, ?_, ?_⟩
      · rw [hreceipts, List.append_nil]
      · rw [hproposal]
        exact (List.append_nil _).symm
      · rw [hproposal]
        exact ⟨rfl, rfl⟩
      · rw [hproposal]

theorem addedBy_append {M : Type} (turns turns' : List (BlockTurn M)) :
    addedBy (turns ++ turns') = addedBy turns ++ addedBy turns' := by
  rw [addedBy, List.filter_append, List.map_append, addedBy, addedBy]

theorem addedBy_eq_nil {M : Type} {turns : List (BlockTurn M)}
    (hsame : ∀ turn ∈ turns,
      turn.after.proposal.transactions = turn.before.proposal.transactions) : addedBy turns = [] := by
  unfold addedBy
  rw [List.map_eq_nil_iff, List.filter_eq_nil_iff]
  exact fun turn hmem h => of_decide_eq_true h (hsame turn hmem)

theorem mem_addedBy {M : Type} {turns : List (BlockTurn M)} {turn : BlockTurn M}
    (hmem : turn ∈ turns)
    (hadded : turn.after.proposal.transactions ≠ turn.before.proposal.transactions) :
    turn.transaction.received ∈ addedBy turns :=
  List.mem_map_of_mem (List.mem_filter.mpr ⟨hmem, decide_eq_true hadded⟩)

theorem addedBy_sublist {M : Type} (turns : List (BlockTurn M)) :
    (addedBy turns).Sublist (turns.map fun turn => turn.transaction.received) :=
  (List.filter_sublist).map _

theorem TurnEffect.holds {turn : BlockTurn (TransactionManager DB)} {f : LedgerFlow}
    (heffect : TurnEffect S T turn f) : ∃ f', turn.after.manager.Holds T f' := by
  cases heffect with
  | included hincluded hfunded hafter hholds => exact ⟨_, hholds⟩
  | leftAlone hcurrent hholds => exact ⟨_, hholds⟩

/-- A run in order adds what its turns add, and each of its turns lies between its ends. -/
theorem Linked.adds {turns : List (BlockTurn (TransactionManager DB))}
    {st st' : BlockState (TransactionManager DB)} {f : LedgerFlow} (hlinked : Linked st turns st')
    (hholds : st.manager.Holds T f)
    (heffect : ∀ turn ∈ turns, ∀ f, turn.before.manager.Holds T f → TurnEffect S T turn f) :
    Adds S st st' (addedBy turns) ∧ ∀ turn ∈ turns, (∃ f, turn.before.manager.Holds T f) ∧
      ∃ ts ts', Adds S st turn.before ts ∧ Adds S turn.after st' ts' := by
  induction turns generalizing st f with
  | nil =>
      obtain rfl : st = st' := hlinked
      exact ⟨Adds.refl st, fun _ h => nomatch h⟩
  | cons turn turns ih =>
      obtain ⟨rfl, hrest⟩ := hlinked
      have hturn := heffect turn List.mem_cons_self f hholds
      obtain ⟨f₁, hholds₁⟩ := hturn.holds
      obtain ⟨hadds, hbetween⟩ := ih hrest hholds₁ fun x hx => heffect x (List.mem_cons_of_mem _ hx)
      refine ⟨?_, fun x hx => ?_⟩
      · have hall := addedBy_append [turn] turns
        rw [List.singleton_append] at hall
        rw [hall]
        exact hturn.adds.trans hadds
      · rcases List.mem_cons.mp hx with rfl | hx
        · exact ⟨⟨f, hholds⟩, [], _, Adds.refl _, hadds⟩
        · obtain ⟨hholds', ts, ts', hbefore, hafter⟩ := hbetween x hx
          exact ⟨hholds', _, ts', hturn.adds.trans hbefore, hafter⟩

end Added

/-! ### The formed block -/

namespace FormedBlock

variable {S : NodeServices} {DB : Type} {T : LedgerTrie DB}

/-- The block, with the receipts of the call. -/
def block (b : FormedBlock S T) : CBlockProposal :=
  { b.finish.proposal with receipts := b.finish.receipts }

/-- The transactions of the block, in its order, as they are received. -/
def added (b : FormedBlock S T) : List PoolTransaction := addedBy (b.turns ++ b.retries)

/-- The state in which the block is verified: that in which its formation began. -/
def verification (b : FormedBlock S T) : BlockState (TransactionManager DB) :=
  { b.start with proposal := b.block, receipts := [] }

/-- Formation begins with a block without transactions, and without receipts. -/
structure Fresh (b : FormedBlock S T) : Prop where
  transactions : b.start.proposal.transactions = []
  receipts : b.start.receipts = []

/-- No turn of the first loop takes a branch that leaves the accounts in disorder, none of the second
loop adds a transaction, the pool has each transaction once, and it has receipt IDs. -/
structure Regular (b : FormedBlock S T) : Prop where
  turns : ∀ turn ∈ b.turns, ∀ f, turn.before.manager.Holds T f →
    RegularTurn S (turn.before.over f) turn.transaction
  retries : ∀ turn ∈ b.retries, ∀ f, turn.before.manager.Holds T f →
    ∀ processed, Processes S (turn.before.over f) turn.transaction processed →
      processed.receipt.doNotIncludeInChain = true ∨ processed.confirmedDomainID = []
  distinct : (b.transactions.map fun t => S.getHash t.toCTransaction).Nodup
  pooled : ∀ t ∈ b.added, PooledReceipt S b.block t

theorem turns_of_empty (b : FormedBlock S T) (hempty : b.transactions = []) :
    b.turns ++ b.retries = [] := by
  have hmode : b.mode.addToBlock ≠ b.mode.verifyAgainstBlock := by
    rw [b.adds, b.forms]
    nofun
  have hturns : b.turns = [] := by
    rw [turns, mainTurns, if_neg hmode, hempty, turnsOf]
  have hretries : b.retries = [] := by
    rw [retries, retryTurns, if_neg hmode, hempty]
    exact if_neg fun h => h.2.2.1 rfl
  rw [hturns, hretries, List.append_nil]

/-- The run of the call, whether or not it had transactions. -/
theorem run (hT : T.Documented) (b : FormedBlock S T) :
    (∃ countOfDomains issuersWithSuccessfulTx,
      Linked { b.start with countOfDomains, issuersWithSuccessfulTx } (b.turns ++ b.retries)
        b.finish) ∧
      ∀ turn ∈ b.turns ++ b.retries, turn.before.proposal.isCheckpointed = false := by
  by_cases hempty : b.transactions = []
  · rw [b.turns_of_empty hempty, (b.finish_of_empty hempty).1]
    exact ⟨⟨_, _, rfl⟩, fun _ h => nomatch h⟩
  · have hlinked := (b.linked hT hempty).1
    obtain ⟨-, hturns⟩ := hlinked.keeps b.start_ongoing fun turn hmem hst => b.ongoing hT hmem hst
    exact ⟨⟨_, _, hlinked⟩, fun turn hmem => (hturns turn hmem).1⟩

/-- Every turn of a regular run is in order. -/
theorem Regular.effect {b : FormedBlock S T} (hT : T.Documented) (hregular : b.Regular)
    {turn : BlockTurn (TransactionManager DB)} (hmem : turn ∈ b.turns ++ b.retries)
    (hckpt : turn.before.proposal.isCheckpointed = false) {f : LedgerFlow}
    (hholds : turn.before.manager.Holds T f) : TurnEffect S T turn f := by
  rcases List.mem_append.mp hmem with hmain | hretry
  · exact (b.formationTurn hT hmain).effect hholds hckpt (hregular.turns turn hmain f hholds)
  · exact (b.retryTurn hT hretry).effect hholds (hregular.retries turn hretry f hholds)

/-- What the second loop adds: nothing, in a regular run. -/
theorem Regular.retries_same {b : FormedBlock S T} (hT : T.Documented) (hregular : b.Regular)
    {turn : BlockTurn (TransactionManager DB)} (hmem : turn ∈ b.retries) {f : LedgerFlow}
    (hholds : turn.before.manager.Holds T f) :
    turn.after.proposal.transactions = turn.before.proposal.transactions := by
  obtain ⟨processed, sf, hprocesses, houtcome, hafter, -⟩ := b.retryTurn hT hmem f hholds
  rcases houtcome with ⟨-, rfl⟩ | ⟨hkept, hconfirmed, -⟩
  · rw [hafter]
    rfl
  · rcases hregular.retries turn hmem f hholds processed hprocesses with hdiscard | hnone
    · exact Bool.noConfusion (hkept.symm.trans hdiscard)
    · exact absurd hnone hconfirmed

/-- The transactions of the block are some of those that the pool had, in their order. -/
theorem Regular.added_sublist {b : FormedBlock S T} (hT : T.Documented) (hregular : b.Regular)
    (hholds : ∀ turn ∈ b.turns ++ b.retries, ∃ f, turn.before.manager.Holds T f) :
    (b.added.map fun t => S.getHash t.toCTransaction).Sublist
      (b.transactions.map fun t => S.getHash t.toCTransaction) := by
  have hretries : addedBy b.retries = [] := by
    refine addedBy_eq_nil fun turn hmem => ?_
    obtain ⟨f, hf⟩ := hholds turn (List.mem_append_right _ hmem)
    exact hregular.retries_same hT hmem hf
  have hturns := (addedBy_sublist b.turns).map fun t => S.getHash t.toCTransaction
  have hmain : (b.turns.map BlockTurn.transaction).Sublist b.transactions := mainTurns_sublist _
  rw [List.map_map] at hturns
  rw [added, addedBy_append, hretries, List.append_nil]
  refine hturns.trans ?_
  have hpool := hmain.map fun t => S.getHash t.toCTransaction
  rw [List.map_map] at hpool
  exact hpool

/-- What verification uses of a turn of a regular run. -/
theorem Regular.repeatable {b : FormedBlock S T} (hhash : ∀ t, (S.getHash t).length = 32)
    (hregular : b.Regular) (hfresh : b.Fresh)
    (hdistinct : (b.added.map fun t => S.getHash t.toCTransaction).Nodup)
    {st : BlockState (TransactionManager DB)} (hadds : Adds S st b.finish b.added)
    (hstart : st.receipts = b.start.receipts) {turn : BlockTurn (TransactionManager DB)} (hmem : turn ∈ b.turns ++ b.retries)
    {f : LedgerFlow} (heffect : TurnEffect S T turn f) {ts ts' : List PoolTransaction}
    (hbefore : Adds S st turn.before ts) (hafter : Adds S turn.after b.finish ts') :
    Repeatable S b.block turn where
  within := turns_within hmem
  heights := ⟨hadds.heights.height.symm.trans hbefore.heights.height,
    hadds.heights.keyHeight.symm.trans hbefore.heights.keyHeight⟩
  pooled hadded := by
    obtain ⟨hlength, hsource⟩ := hregular.pooled _ (mem_addedBy hmem hadded)
    exact ⟨hlength, hsource⟩
  listed receipt hreceipt := by
    have hid : receipt.mVerifiableID = S.getHash turn.transaction.toCTransaction := by
      cases heffect with
      | @included processed l hincluded hfunded hturn hholds =>
          have hown : turn.after.receipts = turn.before.receipts ++ [processed.receipt] := by
            rw [hturn]
            rfl
          rw [hown] at hreceipt
          obtain rfl := List.singleton_injective (List.append_cancel_left hreceipt)
          exact hincluded.mVerifiableID
      | leftAlone hcurrent hholds hproposal hreceipts hcounters =>
          exact absurd hreceipts (ne_of_added hreceipt)
    obtain ⟨receipts, hfinish, -⟩ := hafter.receipts
    have hlisted : receipt ∈ b.finish.receipts := by
      rw [hfinish, hreceipt]
      exact List.mem_append_left _ (List.mem_append_right _ List.mem_cons_self)
    obtain ⟨all, hall, hids⟩ := hadds.receipts
    have hnodup : (b.finish.receipts.map CReceipt.mVerifiableID).Nodup := by
      rw [hall, hstart, hfresh.receipts, List.nil_append, hids]
      exact hdistinct
    rw [CBlockProposal.getReceiptForTransaction, if_neg (not_not_intro (hhash _)), ← hid]
    exact ListUpdate.find?_key_eq CReceipt.mVerifiableID hnodup hlisted

/-- In a run that verifies the transactions of the block, all that is needed at its end. -/
theorem verified_of_loop {mode : ProcessingMode} (hverify : mode.verifyAgainstBlock = true)
    (hadd : mode.addToBlock = false) (unprocessed : List PoolTransaction) {ts ts' : List PoolTransaction}
    {sv sv' : BlockState LedgerFlow}
    (hloop : processLoop S (processTurn S mode (LedgerFlow.calls S)) (fun _ => true) ts sv.begun =
      .ok (.proceed, ts', sv')) (hcount : sv'.countOfDomains = ts.length)
    (hlisted : sv'.proposal.transactions.length = ts.length) :
    ∃ marked finish, processTransactions S mode (LedgerFlow.calls S) (fun _ => true) ts unprocessed
        sv = .ok (true, marked, finish) ∧ finish.manager = sv'.manager ∧
      SameCounters sv' finish := by
  have hmode : mode.addToBlock ≠ mode.verifyAgainstBlock := by
    rw [hadd, hverify]
    decide
  unfold processTransactions
  rw [if_neg hmode]
  by_cases hempty : ts = []
  · subst hempty
    obtain ⟨-, hrest⟩ := Prod.mk.inj (Except.ok.inj hloop)
    obtain ⟨-, rfl⟩ := Prod.mk.inj hrest
    rw [if_pos rfl]
    exact ⟨_, _, rfl, rfl, rfl, rfl, rfl⟩
  · rw [BlockState.begun] at hloop
    rw [if_neg hempty, hloop]
    dsimp only
    have hagrees : countAgrees sv' = true := decide_eq_true (Or.inl (hcount.trans hlisted.symm))
    rw [afterLoop, hverify, if_neg fun h => absurd h.1 (by decide)]
    exact ⟨ts', sv', by rw [hagrees], rfl, rfl, rfl, rfl⟩

end FormedBlock

/-- In a regular run the accounts are in order behind every turn, and the block that it forms is verified
from the state in which it began, to the same perspective and the same counters. -/
theorem formedBlock_verifies {S : NodeServices} {DB : Type} {T : LedgerTrie DB} (hT : T.Documented)
    (hscripts : ScriptsKeepNonces S) (hhash : ∀ t, (S.getHash t).length = 32) (b : FormedBlock S T)
    (hfresh : b.Fresh) (hregular : b.Regular) :
    (∀ turn ∈ b.turns ++ b.retries, turn.Accounted S T ∨ turn.Untouched T) ∧
      b.added.map PoolTransaction.toCTransaction = b.block.transactions ∧
      ∀ (mode : ProcessingMode) (unprocessed : List PoolTransaction),
        mode.verifyAgainstBlock = true → mode.addToBlock = false → ∃ marked finish,
          processTransactions S mode (managerCalls S T) (fun _ => true) b.added unprocessed
            b.verification = .ok (true, marked, finish) ∧
          T.getPerspective finish.manager.mFlowStateDB =
            T.getPerspective b.finish.manager.mFlowStateDB ∧
          SameCounters b.finish finish := by
  obtain ⟨⟨countOfDomains, issuersWithSuccessfulTx, hlinked⟩, hckpt⟩ := b.run hT
  have heffect : ∀ turn ∈ b.turns ++ b.retries, ∀ f, turn.before.manager.Holds T f →
      TurnEffect S T turn f := fun turn hmem f hholds =>
    hregular.effect hT hmem (hckpt turn hmem) hholds
  obtain ⟨hadds, hbetween⟩ := hlinked.adds b.start_holds heffect
  have hlisted : b.added.map PoolTransaction.toCTransaction = b.block.transactions := by
    have hadded := hadds.transactions
    dsimp only at hadded
    rw [hfresh.transactions, List.nil_append] at hadded
    exact hadded.symm
  refine ⟨fun turn hmem => ?_, hlisted, fun mode unprocessed hverify hadd => ?_⟩
  · obtain ⟨⟨f, hholds⟩, -⟩ := hbetween turn hmem
    exact (heffect turn hmem f hholds).settled hscripts hholds
  have hdistinct := hregular.distinct.sublist
    (hregular.added_sublist hT fun turn hmem => (hbetween turn hmem).1)
  have hrepeat : ∀ turn ∈ b.turns ++ b.retries, Repeatable S b.block turn := by
    intro turn hmem
    obtain ⟨⟨f, hholds⟩, ts, ts', hbefore, hafter⟩ := hbetween turn hmem
    exact hregular.repeatable hhash hfresh hdistinct hadds rfl hmem (heffect turn hmem f hholds)
      hbefore hafter
  have hblock : b.block.isCheckpointed = false := hadds.isCheckpointed.trans b.notCheckpointed
  have hstart : b.verification.manager.Holds T _ := b.start_holds
  have hstep : KeepsStep
      (BlockState.over { b.start with countOfDomains, issuersWithSuccessfulTx }
        ⟨b.start.manager.mInFlowInterDBs.map T.domains, [], b.start.manager.ledger T⟩)
      (b.verification.over
        ⟨b.start.manager.mInFlowInterDBs.map T.domains, [], b.start.manager.ledger T⟩).begun :=
    ⟨rfl, rfl, rfl, rfl⟩
  obtain ⟨ts', sv', f', hloop, hholds', hstep', hproposal, hcount⟩ :=
    processLoop_received hverify hblock hlinked b.start_holds heffect hrepeat hstep rfl
  obtain ⟨marked, sf, hprocess, hmanager, hcounters⟩ := FormedBlock.verified_of_loop hverify hadd
    unprocessed hloop (hcount.trans (Nat.zero_add _)) (by
      rw [hproposal, ← hlisted, List.length_map]
      rfl)
  obtain ⟨⟨accepted, marked', finish⟩, hcall, hanswer, -, hstate⟩ :=
    (processTransactions_alike S mode hT (fun _ => true) b.added unprocessed hstart).eq_of_ok hprocess
  dsimp only at hanswer hstate
  subst hanswer
  obtain ⟨hover, hholds⟩ := hstate rfl
  refine ⟨marked', finish, hcall, hT.perspective_of_domains _ _ ?_, ?_⟩
  · calc
      T.domains finish.manager.mFlowStateDB = sf.manager.current := hholds.current
      _ = sv'.manager.current := by rw [hmanager]
      _ = f'.current := hstep'.current
      _ = T.domains b.finish.manager.mFlowStateDB := hholds'.current.symm
  · have hcounters' := hstep'.counters
    rw [hover] at hcounters
    exact
      { size := hcounters.size.trans hcounters'.size
        ERG := hcounters.ERG.trans hcounters'.ERG
        fees := hcounters.fees.trans hcounters'.fees }

/-- A turn that adds a transaction and keeps all nonces leaves the accounts in disorder. -/
theorem BlockTurn.unsettled {S : NodeServices} {DB : Type} {T : LedgerTrie DB}
    {turn : BlockTurn (TransactionManager DB)}
    (hkeeps : (turn.ledger T).KeepsNonces (turn.after.manager.ledger T))
    (hadded : turn.after.proposal.transactions ≠ turn.before.proposal.transactions) :
    ¬ (turn.Accounted S T ∨ turn.Untouched T) := by
  rintro (⟨receipt, issuer, issuerSD, base, hissuer, -, hraises, -⟩ | huntouched)
  · exact not_raisesNonce_of_keeps hkeeps hissuer hraises
  · exact hadded huntouched.transactions

/-- So does every turn of the second loop that adds its transaction. -/
theorem RetryTurn.unsettled {S : NodeServices} {DB : Type} {T : LedgerTrie DB}
    (hscripts : ScriptsKeepNonces S) {turn : BlockTurn (TransactionManager DB)}
    (hturn : RetryTurn S T turn) {f : LedgerFlow} (hholds : turn.before.manager.Holds T f)
    (hadded : turn.after.proposal.transactions ≠ turn.before.proposal.transactions) :
    ¬ (turn.Accounted S T ∨ turn.Untouched T) := by
  obtain ⟨processed, sf, hprocesses, houtcome, hafter, hholds'⟩ := hturn f hholds
  have hbefore : turn.ledger T = f.current := hholds.current
  have hledger : turn.after.manager.ledger T = sf.manager.current := hholds'.current
  refine BlockTurn.unsettled ?_ hadded
  rw [hbefore, hledger]
  rcases houtcome with ⟨-, rfl⟩ | ⟨-, hconfirmed, rfl⟩
  · exact Ledger.KeepsNonces.refl _
  · show f.current.KeepsNonces (processed.changed.getD f.current)
    rcases processOver_cases hprocesses.processes with ⟨hnone, -⟩ | ⟨issuerSD, -, -, -, hcarry⟩
    · exact absurd hnone hconfirmed
    · exact changed_keepsNonces hscripts hcarry

section Samples

theorem sampleServices_hash (t : CTransaction) : (sampleServices.getHash t).length = 32 :=
  fixedBytes_length ..

/-- The sample transaction succeeds, changes nothing, and is of the first owner. -/
theorem sampleTransaction_processed {processed : Processed}
    (hprocess : processOver sampleServices sampleLedger (sampleTransaction 1) 0
      (poolReceiptID sampleServices (sampleServices.getHash (sampleTransaction 1).toCTransaction))
      none none false false = .ok processed) :
    processed.receipt.mResult = .valid ∧ processed.base sampleLedger = sampleLedger ∧
      processed.confirmedDomainID = sampleAddress 1 := by
  obtain rfl := Except.ok.inj hprocess
  exact ⟨rfl, rfl, rfl⟩

/-- Over the sample ledger it takes no branch that leaves the accounts in disorder. -/
theorem sampleTransaction_regular {st : BlockState LedgerFlow}
    (hledger : st.manager.current = sampleLedger) (hheight : st.proposal.keyHeight = 0) :
    RegularTurn sampleServices st (sampleTransaction 1) where
  matching := nofun
  funded processed hprocesses hkept d hd := by
    have hprocess := hprocesses.processes
    rw [hledger, hheight] at hprocess
    obtain ⟨-, hbase, hconfirmed⟩ := sampleTransaction_processed hprocess
    rw [hledger, hbase, hconfirmed] at hd
    obtain rfl := Option.some.inj hd
    nofun
  failing processed l hprocesses hkept hconfirmed hcharged hrolled := by
    have hprocess := hprocesses.processes
    rw [hledger, hheight] at hprocess
    obtain ⟨hvalid, -⟩ := sampleTransaction_processed hprocess
    rw [rollsBack, hvalid] at hrolled
    cases hrolled

/-- The turn of the only transaction begins where the call does. -/
theorem FormedBlock.single_turn {S : NodeServices} {DB : Type} {T : LedgerTrie DB}
    (hT : T.Documented) (b : FormedBlock S T) {t : PoolTransaction} (hts : b.transactions = [t])
    {turn : BlockTurn (TransactionManager DB)} (hmem : turn ∈ b.turns) :
    turn.before = b.start.begun := by
  have hlinked := (b.linked hT (by rw [hts]; exact List.cons_ne_nil _ _)).1
  have hshort : b.turns.length ≤ 1 := by
    have hsublist : (b.turns.map BlockTurn.transaction).Sublist b.transactions :=
      mainTurns_sublist _
    have hlength := hsublist.length_le
    rwa [List.length_map, hts] at hlength
  cases hturns : b.turns with
  | nil =>
      rw [hturns] at hmem
      cases hmem
  | cons first rest =>
      rw [hturns] at hmem hlinked hshort
      obtain rfl := List.eq_nil_of_length_eq_zero (Nat.le_zero.mp (Nat.le_of_succ_le_succ hshort))
      obtain rfl := List.mem_singleton.mp hmem
      exact hlinked.1

/-- A block that is formed of one transaction is verified. -/
theorem sample_formed_verifies :
    ∃ b : FormedBlock sampleServices sampleTrie,
      b.block.transactions = [(sampleTransaction 1).toCTransaction] ∧
      ∃ marked finish,
        processTransactions sampleServices ⟨false, false, true⟩ (managerCalls sampleServices sampleTrie)
          (fun _ => true) b.added [] b.verification = .ok (true, marked, finish) ∧
        finish.mUtilizedERG = 5 := by
  obtain ⟨b, hmode, hrunning, hts, hunprocessed, hstart⟩ :=
    formedBlock_exists [sampleTransaction 1] [] (by decide +kernel)
  have hretries : b.retries = [] := by
    rw [FormedBlock.retries, List.eq_nil_iff_forall_not_mem]
    intro turn hmem
    have hlisted := retryTurns_mem hmem
    rw [hunprocessed] at hlisted
    cases hlisted
  have hformed := b.formed
  rw [hmode, hrunning, hts, hunprocessed, hstart] at hformed
  have hfinish : (processTransactions sampleServices formationMode
      (managerCalls sampleServices sampleTrie) (fun _ => true) [sampleTransaction 1] []
      { manager := sampleFlow, proposal := {} }).toOption.map
        (fun x => (x.2.2.proposal.transactions, x.2.2.mUtilizedERG)) =
      some ([(sampleTransaction 1).toCTransaction], 5) := by decide +kernel
  rw [hformed] at hfinish
  obtain ⟨htransactions, hERG⟩ := Prod.mk.inj (Option.some.inj hfinish)
  have htransaction : ∀ turn ∈ b.turns ++ b.retries, turn.transaction = sampleTransaction 1 := by
    intro turn hmem
    rw [hretries, List.append_nil] at hmem
    have hpool := (mainTurns_sublist _).subset (List.mem_map_of_mem hmem)
    rw [hts] at hpool
    exact List.mem_singleton.mp hpool
  have hregular : b.Regular :=
    { turns := by
        intro turn hmem f hholds
        have hbefore := b.single_turn sampleTrie_documented hts hmem
        rw [htransaction turn (List.mem_append_left _ hmem)]
        refine sampleTransaction_regular ?_ ?_
        · refine hholds.current.symm.trans ?_
          rw [hbefore, hstart]
          rfl
        · show turn.before.proposal.keyHeight = 0
          rw [hbefore, hstart]
          rfl
      retries := by
        intro turn hmem
        rw [hretries] at hmem
        cases hmem
      distinct := by
        rw [hts]
        exact List.nodup_singleton _
      pooled := by
        intro t hmem
        obtain ⟨turn, hturn, rfl⟩ := List.mem_map.mp ((addedBy_sublist _).subset hmem)
        rw [htransaction turn hturn]
        refine ⟨(sampleServices_hash _).ge, ?_⟩
        unfold NodeServices.rewrittenSource
        dsimp only
        split_ifs
        · rfl
        · rfl }
  obtain ⟨-, hlisted, hverified⟩ := formedBlock_verifies sampleTrie_documented sample_scriptsKeepNonces
    sampleServices_hash b ⟨by rw [hstart], by rw [hstart]⟩ hregular
  obtain ⟨marked, finish, hcall, -, hcounters⟩ := hverified ⟨false, false, true⟩ [] rfl rfl
  exact ⟨b, htransactions, marked, finish, hcall, hcounters.ERG.trans hERG⟩

/-- A transaction of the first owner by name, with the given nonce. -/
def namedTransaction (mNonce : UInt64) : PoolTransaction :=
  { sampleTransaction 1 with mIssuer := sampleAddress 1, mNonce }

/-- A deferred transaction that is tried again is added without being charged or counted: the block that
results is verified to another count of ERG, and to another perspective. -/
theorem deferred_transaction_uncounted :
    ∃ b : FormedBlock sampleServices sampleTrie, b.Fresh ∧
      (∃ turn ∈ b.turns ++ b.retries,
        ¬ (turn.Accounted sampleServices sampleTrie ∨ turn.Untouched sampleTrie)) ∧
      b.added.map PoolTransaction.toCTransaction = b.block.transactions ∧
      ∃ marked finish,
        processTransactions sampleServices ⟨false, false, true⟩
          (managerCalls sampleServices sampleTrie) (fun _ => true) b.added [] b.verification =
            .ok (true, marked, finish) ∧
        finish.mUtilizedERG ≠ b.finish.mUtilizedERG ∧
        sampleTrie.getPerspective finish.manager.mFlowStateDB ≠
          sampleTrie.getPerspective b.finish.manager.mFlowStateDB := by
  obtain ⟨b, hmode, hrunning, hts, hunprocessed, hstart⟩ :=
    formedBlock_exists [namedTransaction 1] [namedTransaction 2] (by decide +kernel)
  let start : BlockState (TransactionManager (Ledger × Bytes)) :=
    { manager := sampleFlow, proposal := {} }
  let main := mainTurns sampleServices formationMode (managerCalls sampleServices sampleTrie)
    (fun _ => true) [namedTransaction 1] start
  let again := retryTurns sampleServices formationMode (managerCalls sampleServices sampleTrie)
    (fun _ => true) [namedTransaction 1] [namedTransaction 2] start
  have hturns : b.turns = main := by
    rw [FormedBlock.turns, hmode, hrunning, hts, hstart]
  have hretries : b.retries = again := by
    rw [FormedBlock.retries, hmode, hrunning, hts, hunprocessed, hstart]
  have hadded : b.added = [(namedTransaction 1).received, (namedTransaction 2).received] := by
    rw [FormedBlock.added, hturns, hretries]
    decide +kernel
  have hformed := b.formed
  rw [hmode, hrunning, hts, hunprocessed, hstart] at hformed
  refine ⟨b, ⟨by rw [hstart], by rw [hstart]⟩, ?_, ?_, ?_⟩
  · have hretried : (again[0]?).map (fun turn => decide
        (turn.after.proposal.transactions ≠ turn.before.proposal.transactions)) = some true := by
      decide +kernel
    rw [← hretries] at hretried
    obtain ⟨turn, hturn, hne⟩ := Option.map_eq_some_iff.mp hretried
    have hmem := List.mem_of_getElem? hturn
    obtain ⟨-, hturns⟩ := ((b.linked sampleTrie_documented (by rw [hts]; exact List.cons_ne_nil _ _)).1).keeps
      b.start_ongoing fun turn hmem hst => b.ongoing sampleTrie_documented hmem hst
    obtain ⟨-, f, hholds⟩ := hturns turn (List.mem_append_right _ hmem)
    exact ⟨turn, List.mem_append_right _ hmem,
      (b.retryTurn sampleTrie_documented hmem).unsettled sample_scriptsKeepNonces hholds
        (of_decide_eq_true hne)⟩
  · have hlisted : (processTransactions sampleServices formationMode
        (managerCalls sampleServices sampleTrie) (fun _ => true) [namedTransaction 1]
        [namedTransaction 2] start).toOption.map (fun x => x.2.2.proposal.transactions) =
      some [(namedTransaction 1).toCTransaction, (namedTransaction 2).toCTransaction] := by
      decide +kernel
    rw [hformed] at hlisted
    rw [hadded]
    exact (Option.some.inj hlisted).symm
  · have hverified : (processTransactions sampleServices formationMode
        (managerCalls sampleServices sampleTrie) (fun _ => true) [namedTransaction 1]
        [namedTransaction 2] start).toOption.bind (fun x =>
          (processTransactions sampleServices ⟨false, false, true⟩
            (managerCalls sampleServices sampleTrie) (fun _ => true)
            [(namedTransaction 1).received, (namedTransaction 2).received] []
            { start with
              proposal := { x.2.2.proposal with receipts := x.2.2.receipts }
              receipts := [] }).toOption.map fun y =>
                (y.1, decide (y.2.2.mUtilizedERG ≠ x.2.2.mUtilizedERG),
                  decide (sampleTrie.getPerspective y.2.2.manager.mFlowStateDB ≠
                    sampleTrie.getPerspective x.2.2.manager.mFlowStateDB))) =
      some (true, true, true) := by decide +kernel
    rw [hformed] at hverified
    obtain ⟨⟨accepted, marked, finish⟩, hcall, hfacts⟩ := Option.map_eq_some_iff.mp hverified
    obtain ⟨rfl, hrest⟩ := Prod.mk.inj hfacts
    obtain ⟨hERG, hperspective⟩ := Prod.mk.inj hrest
    refine ⟨marked, finish, ?_, of_decide_eq_true hERG, of_decide_eq_true hperspective⟩
    rw [hadded, FormedBlock.verification, FormedBlock.block, hstart]
    exact toOption_eq_some.mp hcall

end Samples

end Gridnet
