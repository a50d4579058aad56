import Gridnet.BlockProcessing
import Gridnet.Simulation

/-! A flow as ledgers: the domains of the flow state, those before the current transaction, and those
that lie below. The calls of a turn on the manager come down to calls on these, as long as its undo
stack has room for the snapshots of one transaction. -/

namespace Gridnet

/-- The domains that a transaction is charged over: what a failed one did is rolled back first. -/
def Processed.base (processed : Processed) (l : Ledger) : Ledger :=
  if rollsBack processed.receipt false then l else processed.changed.getD l

/-- The ledgers of a flow; `own` are the snapshots of the current transaction. -/
structure LedgerFlow where
  older : List Ledger := []
  own : List Ledger := []
  current : Ledger

namespace LedgerFlow

variable (S : NodeServices)

def stepBack (f : LedgerFlow) : Except ProcessFault LedgerFlow :=
  match f.own.getLast?, f.older.getLast? with
  | some l, _ => .ok { f with own := f.own.dropLast, current := l }
  | none, some l => .ok { f with older := f.older.dropLast, current := l }
  | none, none => .error (.fault .assertion)

/-- Processing takes one snapshot. -/
def process (f : LedgerFlow) (t : PoolTransaction) (keyHeight : UInt64) (receiptID : Bytes)
    (existingReceipt : Option CReceipt) (existingBlock : Option CBlockProposal)
    (excuseERGusage enforceFailure : Bool) : Except ProcessFault (Processed × LedgerFlow) :=
  if existingBlock = none ∧ t.mErgLimit < S.getMinERGLimit then .error .nullDereference
  else
    match processOver S f.current t keyHeight receiptID existingReceipt existingBlock excuseERGusage
        enforceFailure with
    | .error e => .error e
    | .ok processed => .ok (processed,
        { f with own := [f.current], current := processed.changed.getD f.current })

/-- The domains once the issuer has paid, or `none` if the fee cannot be taken. -/
def chargeOver (l : Ledger) (t : PoolTransaction) (receipt : CReceipt) (receiptID : Bytes)
    (enforceFailure : Bool) (proposal : CBlockProposal) (confirmedDomainID : Bytes) :
    Except ProcessFault (Option Ledger) :=
  match l.findByID confirmedDomainID with
  | none => .error .nullDereference
  | some domain =>
      match domain.incNonce.changeBalanceBy (-(receipt.fee.toNat : ℤ)) with
      | none => .ok none
      | some domain =>
          match noteReceipt S t receipt receiptID enforceFailure proposal domain with
          | .error e => .error e
          | .ok domain => .ok (some (l.save confirmedDomainID domain))

def charge (f : LedgerFlow) (t : PoolTransaction) (receipt : CReceipt) (receiptID : Bytes)
    (enforceFailure : Bool) (proposal : CBlockProposal) (confirmedDomainID : Bytes) :
    Except ProcessFault (Bool × LedgerFlow) :=
  match if rollsBack receipt enforceFailure then f.stepBack else .ok f with
  | .error e => .error e
  | .ok f =>
      match chargeOver S f.current t receipt receiptID enforceFailure proposal confirmedDomainID with
      | .error e => .error e
      | .ok none => .ok (false, f)
      | .ok (some l) => .ok (true, { f with current := l })

/-- The snapshots go, and with them what a transaction did that is not included. -/
def finish (f : LedgerFlow) (receipt : CReceipt) : LedgerFlow :=
  { f with
    own := []
    current := if receipt.doNotIncludeInChain then f.own.head?.getD f.current else f.current }

/-- The calls of a turn on ledgers. -/
def calls : ManagerCalls LedgerFlow where
  processTransaction f _ := f.process S
  chargeIssuer := charge S
  stepBack := stepBack
  endTransaction f receipt := .ok (f.finish receipt)

/-- Noting a receipt changes only the containers of the domain. -/
theorem noteReceipt_spec {S : NodeServices} {t : PoolTransaction} {receipt : CReceipt}
    {receiptID : Bytes} {enforceFailure : Bool} {proposal : CBlockProposal}
    {domain domain' : StateDomain}
    (hnote : noteReceipt S t receipt receiptID enforceFailure proposal domain = .ok domain') :
    ∃ receiptIDs TXNibbles, domain' = { domain with receiptIDs, TXNibbles } := by
  unfold noteReceipt at hnote
  dsimp only at hnote
  split_ifs at hnote
  · cases hentry : S.statsEntry t.mCode proposal.keyHeight receiptID (some proposal) with
    | error e =>
        rw [hentry] at hnote
        cases hnote
    | ok entry =>
        rw [hentry] at hnote
        cases entry with
        | none => exact ⟨_, _, (Except.ok.inj hnote).symm⟩
        | some nibbles => exact ⟨_, _, (Except.ok.inj hnote).symm⟩
  · exact ⟨_, _, (Except.ok.inj hnote).symm⟩

/-- A charge that succeeds saves the issuer's domain with the next nonce and without the fee. -/
theorem chargeOver_spec {S : NodeServices} {l l' : Ledger} {t : PoolTransaction}
    {receipt : CReceipt} {receiptID : Bytes} {enforceFailure : Bool} {proposal : CBlockProposal}
    {confirmedDomainID : Bytes}
    (hcharged : chargeOver S l t receipt receiptID enforceFailure proposal confirmedDomainID =
      .ok (some l')) :
    ∃ domain charged receiptIDs TXNibbles, l.findByID confirmedDomainID = some domain ∧
      domain.incNonce.changeBalanceBy (-(receipt.fee.toNat : ℤ)) = some charged ∧
      l' = l.save confirmedDomainID { charged with receiptIDs, TXNibbles } := by
  unfold chargeOver at hcharged
  cases hdomain : l.findByID confirmedDomainID with
  | none =>
      rw [hdomain] at hcharged
      cases hcharged
  | some domain =>
      rw [hdomain] at hcharged
      dsimp only at hcharged
      cases hchange : domain.incNonce.changeBalanceBy (-(receipt.fee.toNat : ℤ)) with
      | none =>
          rw [hchange] at hcharged
          cases hcharged
      | some charged =>
          rw [hchange] at hcharged
          dsimp only at hcharged
          cases hnote : noteReceipt S t receipt receiptID enforceFailure proposal charged with
          | error e =>
              rw [hnote] at hcharged
              cases hcharged
          | ok noted =>
              rw [hnote] at hcharged
              obtain ⟨receiptIDs, TXNibbles, rfl⟩ := noteReceipt_spec hnote
              exact ⟨domain, charged, receiptIDs, TXNibbles, rfl, hchange,
                (Option.some.inj (Except.ok.inj hcharged)).symm⟩

/-- The ledgers of a flow behind the processing of a transaction. -/
def after (f : LedgerFlow) (processed : Processed) : LedgerFlow :=
  { f with own := [f.current], current := processed.changed.getD f.current }

/-- Charging in the middle of a turn, with the snapshot on top. -/
theorem charge_eq {S : NodeServices} (f : LedgerFlow) (before : Ledger) (hown : f.own = [before]) (t : PoolTransaction)
    (receipt : CReceipt) (receiptID : Bytes) (enforceFailure : Bool) (proposal : CBlockProposal)
    (confirmedDomainID : Bytes) :
    f.charge S t receipt receiptID enforceFailure proposal confirmedDomainID =
      match LedgerFlow.chargeOver S (if rollsBack receipt enforceFailure then before else f.current)
        t receipt receiptID enforceFailure proposal confirmedDomainID with
      | .error e => .error e
      | .ok none => .ok (false, { f with
          own := if rollsBack receipt enforceFailure then [] else f.own
          current := if rollsBack receipt enforceFailure then before else f.current })
      | .ok (some l) => .ok (true, { f with
          own := if rollsBack receipt enforceFailure then [] else f.own
          current := l }) := by
  unfold LedgerFlow.charge
  cases rollsBack receipt enforceFailure with
  | false => rfl
  | true =>
      obtain ⟨older, own, current⟩ := f
      obtain rfl : own = [before] := hown
      rfl

/-- The statistics of a transaction do not depend on its marks. -/
theorem chargeOver_congr {S : NodeServices} {l : Ledger} {t t' : PoolTransaction}
    (hcode : t.toCTransaction = t'.toCTransaction) (receipt : CReceipt) (receiptID : Bytes)
    (enforceFailure : Bool) (proposal : CBlockProposal) (confirmedDomainID : Bytes) :
    chargeOver S l t receipt receiptID enforceFailure proposal confirmedDomainID =
      chargeOver S l t' receipt receiptID enforceFailure proposal confirmedDomainID := by
  unfold chargeOver noteReceipt
  rw [hcode]

end LedgerFlow

/-! ### The calls of the manager -/

namespace TransactionManager

variable {DB : Type} (T : LedgerTrie DB)

/-- The undo stack has room for the snapshots of a transaction, and so does their counter, which is asserted to be zero
before transactions are processed. -/
structure Ready (m : TransactionManager DB) : Prop where
  wellFormed : m.WellFormed T.toTrieDB
  room : m.mInFlowInterDBs.length + 2 ≤ m.mAllowedInterFlowSteps
  counted : m.mInFlowTotalTXDBStackDepth.toNat + 2 < 2 ^ 64

/-- Between two turns: the manager holds the ledgers of the flow. -/
structure Holds (m : TransactionManager DB) (f : LedgerFlow) : Prop extends m.Ready T where
  older : m.mInFlowInterDBs.map T.domains = f.older
  own : f.own = []
  current : m.ledger T = f.current

/-- In the middle of a turn, with at most the snapshot of the transaction on top. -/
def HoldsDuring (m₁ : TransactionManager DB) (f : LedgerFlow) : Prop :=
  ∃ m, m.Ready T ∧ During T m m₁ f.own ∧ m.mInFlowInterDBs.map T.domains = f.older ∧
    m₁.ledger T = f.current ∧ f.own.length ≤ 1

/-- In the middle of a turn, as far as it matters for reverting the transaction. -/
def HoldsReverted (m₁ : TransactionManager DB) (f : LedgerFlow) : Prop :=
  ∃ m snapshots, m.Ready T ∧ During T m m₁ snapshots ∧ m.mInFlowInterDBs.map T.domains = f.older ∧
    snapshots.head?.getD (m₁.ledger T) = f.own.head?.getD f.current

variable {T} {S : NodeServices} {m m₁ : TransactionManager DB} {f : LedgerFlow}

theorem HoldsDuring.reverted (hduring : HoldsDuring T m₁ f) : HoldsReverted T m₁ f := by
  obtain ⟨m, hready, hown, holder, hcurrent, -⟩ := hduring
  exact ⟨m, f.own, hready, hown, holder, by rw [hcurrent]⟩

theorem Ready.cleaned (hready : m.Ready T) {m₂ : TransactionManager DB} (hcleaned : m.Cleaned m₂)
    (hallowed : m₂.mAllowedInterFlowSteps = m.mAllowedInterFlowSteps) : m₂.Ready T := by
  refine ⟨⟨?_, ?_, ?_⟩, ?_, ?_⟩
  · rw [hcleaned.perspectives, hcleaned.dbs]
    exact hready.wellFormed.aligned
  · rw [hcleaned.dbs, hallowed]
    exact hready.wellFormed.bounded
  · rw [hcleaned.depth]
    exact UInt64.zero_le
  · rw [hcleaned.dbs, hallowed]
    exact hready.room
  · rw [hcleaned.total]
    exact hready.counted

/-- The manager at the start of a turn. -/
theorem Holds.begin (hholds : m.Holds T f) (transID : Bytes) :
    (beginTransaction S m transID).Ready T ∧
      During T (beginTransaction S m transID) (beginTransaction S m transID) [] := by
  have hwell : (beginTransaction S m transID).WellFormed T.toTrieDB :=
    ⟨hholds.wellFormed.aligned, hholds.wellFormed.bounded, UInt64.zero_le⟩
  exact ⟨⟨hwell, hholds.room, hholds.counted⟩, [],
    { wellFormed := hwell
      dbs := (List.append_nil _).symm
      ids := fun _ h => nomatch h
      depth := rfl
      total := rfl
      allowed := rfl }, rfl⟩

theorem processTransaction_alike (hT : T.Documented) (hholds : m.Holds T f) (transID : Bytes)
    (t : PoolTransaction) (keyHeight : UInt64) (receiptID : Bytes)
    (existingReceipt : Option CReceipt) (existingBlock : Option CBlockProposal)
    (excuseERGusage enforceFailure : Bool) :
    EndsAlike (fun p q => p.1 = q.1 ∧ HoldsDuring T p.2 q.2)
      ((managerCalls S T).processTransaction m transID t keyHeight receiptID existingReceipt
        existingBlock excuseERGusage enforceFailure)
      ((LedgerFlow.calls S).processTransaction f transID t keyHeight receiptID existingReceipt
        existingBlock excuseERGusage enforceFailure) := by
  show EndsAlike _ (processTransaction S T (beginTransaction S m transID) t keyHeight receiptID
    existingReceipt existingBlock excuseERGusage enforceFailure)
    (f.process S t keyHeight receiptID existingReceipt existingBlock excuseERGusage enforceFailure)
  unfold LedgerFlow.process
  by_cases hlimit : existingBlock = none ∧ t.mErgLimit < S.getMinERGLimit
  · rw [processTransaction, if_pos hlimit, if_pos hlimit]
    exact EndsAlike.error _
  obtain ⟨hready, hbegun⟩ := hholds.begin (S := S) transID
  obtain ⟨m₂, hpush, hduring, hstate⟩ := hbegun.snapshot hT (by
    have hroom := hready.room
    rw [List.length_nil]
    omega) (by
    have hcounted := hready.counted
    rw [List.length_nil]
    omega)
  have hledger : m₂.ledger T = f.current := (congrArg T.domains hstate).trans hholds.current
  have hbefore : (beginTransaction S m transID).ledger T = f.current := hholds.current
  rw [processTransaction_eq hT hpush hlimit, if_neg hlimit, hledger]
  rw [List.nil_append, hbefore] at hduring
  cases processOver S f.current t keyHeight receiptID existingReceipt existingBlock excuseERGusage
      enforceFailure with
  | error e => exact EndsAlike.error e
  | ok processed =>
      refine EndsAlike.ok ⟨rfl, _, hready, hduring.withChanged _, hholds.older, ?_, Nat.le_refl 1⟩
      rw [ledger_withChanged hT, hledger]

theorem stepBack_alike (hT : T.Documented) (hduring : HoldsDuring T m₁ f) :
    EndsAlike (HoldsDuring T) (asserted (m₁.stepBack T.toTrieDB 1)) f.stepBack := by
  obtain ⟨m, hready, hown, holder, hcurrent, hlength⟩ := hduring
  obtain ⟨older, own, current⟩ := f
  dsimp only at hown holder hcurrent hlength
  rcases List.eq_nil_or_concat own with rfl | ⟨first, l, rfl⟩
  · -- nothing of the transaction is left: the step goes into what was there before
    obtain ⟨dbs, hinside, hdbs⟩ := hown
    rw [List.map_eq_nil_iff.mp hdbs] at hinside
    have hsame : m₁.mInFlowInterDBs = m.mInFlowInterDBs := by
      rw [hinside.dbs, List.append_nil]
    subst holder
    rcases List.eq_nil_or_concat m.mInFlowInterDBs with hempty | ⟨kept, db, hkept⟩
    · have hnone : m₁.mInFlowInterDBs.length < 1 := by
        rw [hsame, hempty]
        exact Nat.one_pos
      rw [stepBack_eq_false hinside.wellFormed hnone, hempty]
      exact EndsAlike.error _
    · rw [List.concat_eq_append] at hkept
      rw [stepBack_concat hT.toDocumented hinside.wellFormed (hsame.trans hkept), hkept,
        List.map_append, LedgerFlow.stepBack, List.getLast?_nil, List.map_singleton,
        List.getLast?_concat, List.dropLast_concat]
      have hremoved := hinside.wellFormed.removed 1
      have hdepth : m₁.mInFlowTXDBStackDepth.toNat = 0 := hinside.depth
      have htotal : (m₁.removed 1).mInFlowTotalTXDBStackDepth.toNat = m.mInFlowTotalTXDBStackDepth.toNat := by
        rw [total_removed, hdepth, Nat.min_zero, Nat.sub_zero]
        exact hinside.total
      have htake : (m₁.removed 1).mInFlowInterDBs = kept := by
        rw [removed, hsame, hkept, List.length_append, List.length_singleton, Nat.add_sub_cancel,
          List.take_left]
      have hwell : WellFormed T.toTrieDB { m₁.removed 1 with
          mFlowStateDB := restored T.toTrieDB m₁.mFlowStateDB db } :=
        ⟨hremoved.aligned, hremoved.bounded, hremoved.depth⟩
      refine EndsAlike.ok ⟨_, ⟨hwell, ?_, htotal.symm ▸ hready.counted⟩, ⟨[], ?_, rfl⟩, congrArg _ htake,
        domains_restored hT _ _, Nat.zero_le 1⟩
      · have hroom := hready.room
        have hallowed := hinside.allowed
        rw [hkept, List.length_append, List.length_singleton] at hroom
        show (m₁.removed 1).mInFlowInterDBs.length + 2 ≤ m₁.mAllowedInterFlowSteps
        rw [htake, hallowed]
        omega
      · exact
          { wellFormed := hwell
            dbs := (List.append_nil _).symm
            ids := fun _ h => absurd h List.not_mem_nil
            depth := by
              show (m₁.removed 1).mInFlowTXDBStackDepth.toNat = 0
              rw [depth_removed, hdepth]
            total := rfl
            allowed := rfl }
  · rw [List.concat_eq_append] at hown hlength ⊢
    obtain ⟨m₂, hback, hrest, hledger⟩ := hown.stepBack hT
    rw [hback, LedgerFlow.stepBack, List.getLast?_concat, List.dropLast_concat]
    rw [List.length_append] at hlength
    exact EndsAlike.ok ⟨m, hready, hrest, holder, hledger, by dsimp only; omega⟩

/-- Where the fee cannot be taken, the roll-back is left to the end of the turn. -/
theorem chargeIssuer_alike (hT : T.Documented) (hduring : HoldsDuring T m₁ f) (t : PoolTransaction)
    (receipt : CReceipt) (receiptID : Bytes) (enforceFailure : Bool) (proposal : CBlockProposal)
    (confirmedDomainID : Bytes) :
    EndsAlike
      (fun p q => p.1 = q.1 ∧ HoldsReverted T p.2 q.2 ∧ (p.1 = true → HoldsDuring T p.2 q.2))
      (chargeIssuer S T m₁ t receipt receiptID enforceFailure proposal confirmedDomainID)
      (f.charge S t receipt receiptID enforceFailure proposal confirmedDomainID) := by
  have hback : EndsAlike (HoldsDuring T)
      (if rollsBack receipt enforceFailure then asserted (m₁.stepBack T.toTrieDB 1) else .ok m₁)
      (if rollsBack receipt enforceFailure then f.stepBack else .ok f) := by
    cases rollsBack receipt enforceFailure with
    | true => exact stepBack_alike hT hduring
    | false => exact EndsAlike.ok hduring
  unfold chargeIssuer LedgerFlow.charge
  rcases hback.outcome with ⟨e, hx, hy⟩ | ⟨m₂, f₂, hx, hy, hduring₂⟩
  · rw [hx, hy]
    exact EndsAlike.error e
  rw [hx, hy]
  dsimp only
  obtain ⟨m, hready, hown, holder, hcurrent, hlength⟩ := hduring₂
  obtain ⟨m₃, hpush, hpushed, hstate⟩ := hown.snapshot hT (by
    have hroom := hready.room
    omega) (by
    have hcounted := hready.counted
    omega)
  have hledger : m₃.ledger T = f₂.current := (congrArg T.domains hstate).trans hcurrent
  rw [hpush, LedgerFlow.chargeOver]
  dsimp only
  rw [hledger]
  cases f₂.current.findByID confirmedDomainID with
  | none => exact EndsAlike.error _
  | some domain =>
      dsimp only
      cases domain.incNonce.changeBalanceBy (-(receipt.fee.toNat : ℤ)) with
      | none =>
          refine EndsAlike.ok ⟨rfl, ⟨m, _, hready, hpushed.withLedger _, holder, ?_⟩, nofun⟩
          rw [hcurrent]
          cases f₂.own with
          | nil => rfl
          | cons l own => rfl
      | some domain' =>
          dsimp only
          obtain ⟨m₄, hpop, hpopped, hkept⟩ := (hpushed.withLedger
            (f₂.current.save confirmedDomainID domain.incNonce)).popDB
          rw [hpop]
          dsimp only
          cases noteReceipt S t receipt receiptID enforceFailure proposal domain' with
          | error e => exact EndsAlike.error e
          | ok domain'' =>
              have hledger₄ : m₄.ledger T = f₂.current.save confirmedDomainID domain.incNonce :=
                (congrArg T.domains hkept).trans (hT.domains_withDomains _ _)
              have hafter : HoldsDuring T
                  (m₄.withLedger T ((m₄.ledger T).save confirmedDomainID domain''))
                  { f₂ with current := f₂.current.save confirmedDomainID domain'' } := by
                refine ⟨m, hready, hpopped.withLedger _, holder, ?_, hlength⟩
                rw [ledger_withLedger hT, hledger₄, Ledger.save_save]
              exact EndsAlike.ok ⟨rfl, hafter.reverted, fun _ => hafter⟩

/-- A transaction that is kept. -/
theorem endTransaction_kept (hduring : HoldsDuring T m₁ f) {receipt : CReceipt}
    (hkept : receipt.doNotIncludeInChain = false) :
    ∃ m₂, endTransaction T m₁ receipt = .ok m₂ ∧ m₂.Holds T (f.finish receipt) := by
  obtain ⟨m, hready, hown, holder, hcurrent, -⟩ := hduring
  obtain ⟨m₂, hpop, hcleaned, hallowed, hstate⟩ := hown.popCurrentTXDBs hready.wellFormed
  have hready₂ := hready.cleaned hcleaned hallowed
  unfold endTransaction
  rw [hkept, if_neg Bool.false_ne_true, hpop]
  refine ⟨_, rfl, ⟨⟨hready₂.wellFormed.aligned, hready₂.wellFormed.bounded,
    hready₂.wellFormed.depth⟩, hready₂.room, hready₂.counted⟩, ?_, rfl, ?_⟩
  · exact (congrArg _ hcleaned.dbs).trans holder
  · rw [LedgerFlow.finish, hkept, if_neg Bool.false_ne_true]
    exact (congrArg T.domains hstate).trans hcurrent

/-- A transaction that is reverted. -/
theorem endTransaction_reverted (hT : T.Documented) (hreverted : HoldsReverted T m₁ f)
    {receipt : CReceipt} (hdiscard : receipt.doNotIncludeInChain = true) :
    ∃ m₂, endTransaction T m₁ receipt = .ok m₂ ∧ m₂.Holds T (f.finish receipt) := by
  obtain ⟨m, snapshots, hready, hown, holder, hfirst⟩ := hreverted
  obtain ⟨m₂, hrevert, hcleaned, hallowed, hledger⟩ := hown.revertTX hT hready.wellFormed
  have hready₂ := hready.cleaned hcleaned hallowed
  unfold endTransaction
  rw [hdiscard, if_pos rfl, hrevert]
  refine ⟨_, rfl, ⟨⟨hready₂.wellFormed.aligned, hready₂.wellFormed.bounded,
    hready₂.wellFormed.depth⟩, hready₂.room, hready₂.counted⟩, ?_, rfl, ?_⟩
  · exact (congrArg _ hcleaned.dbs).trans holder
  · rw [LedgerFlow.finish, hdiscard, if_pos rfl]
    exact hledger.trans hfirst

/-- Whatever is left of a transaction, the end of its turn does not fail. -/
theorem endTransaction_ok (hT : T.Documented) (hreverted : HoldsReverted T m₁ f)
    (receipt : CReceipt) : ∃ m₂, endTransaction T m₁ receipt = .ok m₂ := by
  cases hdiscard : receipt.doNotIncludeInChain with
  | true =>
      obtain ⟨m₂, hend, -⟩ := endTransaction_reverted hT hreverted hdiscard
      exact ⟨m₂, hend⟩
  | false =>
      obtain ⟨m, snapshots, hready, hown, -, -⟩ := hreverted
      obtain ⟨m₂, hpop, -⟩ := hown.popCurrentTXDBs hready.wellFormed
      unfold endTransaction
      rw [hdiscard, if_neg Bool.false_ne_true, hpop]
      exact ⟨_, rfl⟩

end TransactionManager

theorem sampleFlow_ready : sampleFlow.Ready sampleTrie := ⟨sampleFlow_wellFormed, by decide, by decide⟩

end Gridnet
