import Gridnet.BlockFormation
import Gridnet.Nonces

/-! What a turn that forms a block does to the accounts of the domains and to the counters of the block:
a transaction that is added is charged and counted once, and any other leaves both alone, except in the
turns that are singled out here. -/

namespace Gridnet

open TransactionManager

/-- The same nonces and balances. -/
def Ledger.SameAccounts (l l' : Ledger) : Prop :=
  ∀ a, (l' a).map (fun d => (d.mNonce, d.getBalance)) = (l a).map fun d => (d.mNonce, d.getBalance)

/-- The domain at `a` pays the fee, and no other domain changes. -/
structure Pays (l l' : Ledger) (a : Bytes) (fee : BigInt) : Prop where
  paid : ∃ d d', l a = some d ∧ l' a = some d' ∧ d'.getBalance.toNat + fee.toNat = d.getBalance.toNat
  others : ∀ b, b ≠ a → l' b = l b

/-- The counters of two states. -/
structure SameCounters {M N : Type} (st : BlockState M) (st' : BlockState N) : Prop where
  size : st'.mUtilizedBlockSize = st.mUtilizedBlockSize
  ERG : st'.mUtilizedERG = st.mUtilizedERG
  fees : st'.mTotalGNCFees = st.mTotalGNCFees

section Accounts

variable {S : NodeServices} {l l' : Ledger}

theorem Ledger.SameAccounts.refl (l : Ledger) : l.SameAccounts l := fun _ => rfl

/-- A balance that is there pays its fee exactly. -/
theorem changeBalanceBy_pays {d d' : StateDomain} {fee : BigInt} (htype : d.assetType ≠ .noData)
    (hchange : d.changeBalanceBy (-(fee.toNat : ℤ)) = some d') :
    d'.getBalance.toNat + fee.toNat = d.getBalance.toNat := by
  unfold StateDomain.changeBalanceBy at hchange
  cases hkind : d.assetType with
  | noData => exact absurd hkind htype
  | unsignedInteger =>
      rw [hkind] at hchange
      cases hchange
  | BigInt =>
      rw [hkind] at hchange
      dsimp only at hchange
      split_ifs at hchange with hlow
      obtain rfl := Option.some.inj hchange
      have hle : fee.toNat ≤ d.assetValue.toNat := by omega
      have hsub : (d.assetValue.toNat : ℤ) + -(fee.toNat : ℤ) =
          ((d.assetValue.toNat - fee.toNat : ℕ) : ℤ) := by omega
      have hlt := d.assetValue.isLt
      show (BitVec.ofInt 256 _).toNat + fee.toNat = d.assetValue.toNat
      rw [hsub, BitVec.ofInt_natCast, BitVec.toNat_ofNat, Nat.mod_eq_of_lt (by omega)]
      omega

/-- Charging an issuer who has a balance takes the fee from it alone. -/
theorem pays_of_charged {a : Bytes} (ha : Ledger.addressOf a = a)
    (htype : ∀ d, l a = some d → d.assetType ≠ .noData) {t : PoolTransaction} {receipt : CReceipt}
    {receiptID : Bytes} {enforceFailure : Bool} {proposal : CBlockProposal}
    (hcharged : LedgerFlow.chargeOver S l t receipt receiptID enforceFailure proposal a =
      .ok (some l')) : Pays l l' a receipt.fee := by
  obtain ⟨domain, charged, receiptIDs, TXNibbles, hdomain, hchange, rfl⟩ :=
    LedgerFlow.chargeOver_spec hcharged
  have hfound : l a = some domain := by rw [← hdomain, Ledger.findByID, ha]
  have hpaid := changeBalanceBy_pays (d := domain.incNonce) (htype domain hfound) hchange
  have hself : l.save a { charged with receiptIDs, TXNibbles } a =
      some { charged with receiptIDs, TXNibbles } := by
    have hsaved := Ledger.save_self l a { charged with receiptIDs, TXNibbles }
    rwa [ha] at hsaved
  exact ⟨⟨domain, _, hfound, hself, hpaid⟩, fun b hb => Ledger.save_of_ne l _ (by rwa [ha])⟩

end Accounts

/-! ### Turns -/

namespace BlockTurn

variable {DB : Type}

/-- The transaction is added, its issuer's nonce is raised once, its issuer pays the fee of its receipt
over what the script left, and it is counted once, within the limits. -/
def Accounted (S : NodeServices) (T : LedgerTrie DB)
    (turn : BlockTurn (TransactionManager DB)) : Prop :=
  ∃ receipt issuer issuerSD base, turn.ledger T issuer = some issuerSD ∧
    (base = turn.ledger T ∨ ∃ call, base = (S.processScript call (turn.ledger T)).2) ∧
    RaisesNonce (turn.ledger T) (turn.after.manager.ledger T) issuer (issuerSD.mNonce + 1) ∧
    Pays base (turn.after.manager.ledger T) issuer receipt.fee ∧
    turn.after.proposal.transactions =
      turn.before.proposal.transactions ++ [turn.transaction.toCTransaction] ∧
    turn.after.receipts = turn.before.receipts ++ [receipt] ∧
    SameCounters (turn.before.tally S turn.transaction receipt) turn.after ∧
    withinLimits S turn.after = true

/-- The transaction is not added, and no account and no counter changes. -/
structure Untouched (T : LedgerTrie DB) (turn : BlockTurn (TransactionManager DB)) : Prop where
  accounts : (turn.ledger T).SameAccounts (turn.after.manager.ledger T)
  transactions : turn.after.proposal.transactions = turn.before.proposal.transactions
  receipts : turn.after.receipts = turn.before.receipts
  counters : SameCounters turn.before turn.after

end BlockTurn

section Turns

variable {S : NodeServices} {st st' : BlockState LedgerFlow} {t : PoolTransaction}
  {processed : Processed} {l : Ledger}

/-- A transaction that is kept, of a confirmed domain, was executed: its issuer has a balance that is a
number, also behind the script. -/
theorem executed_of_kept (hprocesses : Processes S st t processed)
    (hid : memcmpEq processed.receipt.mVerifiableID (S.getHash t.toCTransaction) 32 = .ok true)
    (hkept : processed.receipt.doNotIncludeInChain = false)
    (hconfirmed : processed.confirmedDomainID ≠ []) :
    ∃ issuerSD, keyMatchesIssuer S t = .ok true ∧
      authenticate S st.manager.current t false = .ok (processed.confirmedDomainID, issuerSD) ∧
      judgeIssuer S t st.proposal.keyHeight false false processed.confirmedDomainID issuerSD =
        .execute processed.confirmedDomainID := by
  rcases processOver_cases hprocesses.processes with ⟨hnone, -⟩ | ⟨issuerSD, -, hmatch, hauth, hcarry⟩
  · exact absurd hnone hconfirmed
  · refine ⟨issuerSD, hmatch, hauth, execute_of_kept hcarry hkept ?_⟩
    intro hempty
    rw [hempty, memcmpEq, if_pos (Or.inl (by decide))] at hid
    cases hid

/-- A transaction that was executed, is charged and counted, and stays within the limits. -/
structure Included (S : NodeServices) (st : BlockState LedgerFlow) (t : PoolTransaction)
    (processed : Processed) (l : Ledger) : Prop extends Processes S st t processed where
  sameID : memcmpEq processed.receipt.mVerifiableID (S.getHash t.toCTransaction) 32 = .ok true
  kept : processed.receipt.doNotIncludeInChain = false
  confirmed : processed.confirmedDomainID ≠ []
  charged : chargeFor S st t processed = .ok (some l)
  within : withinLimits S (st.tally S t processed.receipt) = true

/-- What charging an executed transaction does to the accounts. -/
theorem included_accounts (hscripts : ScriptsKeepNonces S)
    (hincluded : Included S st t processed l)
    (hfunded : ∀ d, processed.base st.manager.current processed.confirmedDomainID = some d →
      d.assetType ≠ .noData) :
    ∃ issuerSD base, st.manager.current processed.confirmedDomainID = some issuerSD ∧
      (base = st.manager.current ∨ ∃ call, base = (S.processScript call st.manager.current).2) ∧
      RaisesNonce st.manager.current l processed.confirmedDomainID (issuerSD.mNonce + 1) ∧
      Pays base l processed.confirmedDomainID processed.receipt.fee := by
  obtain ⟨hprocesses, hid, hkept, hconfirmed, hcharged, -⟩ := hincluded
  obtain ⟨issuerSD, -, hauth, -⟩ := executed_of_kept hprocesses hid hkept hconfirmed
  obtain ⟨pubKey, -, -, -, -, hdomain, haddress⟩ := authenticate_eq_ok_iff.mp hauth
  have hself := addressOf_confirmed hprocesses.processes hconfirmed
  have hissuer : st.manager.current processed.confirmedDomainID = some issuerSD := by
    rw [haddress]
    exact hdomain
  obtain ⟨_, -, -, -, hcarry⟩ :=
    (processOver_cases hprocesses.processes).resolve_left fun hnone => hconfirmed hnone.1
  have hchanged := changed_of_judgeIssuer hcarry
  have hbase : processed.base st.manager.current = st.manager.current ∨
      ∃ call, processed.base st.manager.current = (S.processScript call st.manager.current).2 := by
    unfold Processed.base
    split_ifs
    · exact Or.inl rfl
    · rcases hchanged with hnone | ⟨call, hsome⟩
      · rw [hnone]
        exact Or.inl rfl
      · rw [hsome]
        exact Or.inr ⟨call, rfl⟩
  have hkeeps := base_keepsNonces hscripts hcarry
  exact ⟨issuerSD, _, hissuer, hbase, raisesNonce_of_charged hkeeps hself hissuer hcharged,
    pays_of_charged hself hfunded hcharged⟩

/-- No nonce is raised where all nonces are kept. -/
theorem not_raisesNonce_of_keeps {l l' : Ledger} {a : Bytes} {sd : StateDomain}
    (hkeeps : l.KeepsNonces l') (hissuer : l a = some sd) :
    ¬ RaisesNonce l l' a (sd.mNonce + 1) := by
  intro hraises
  obtain ⟨d, hd, hnonce⟩ := hraises.raised
  obtain ⟨d', hd', hnonce'⟩ := hkeeps a sd hissuer
  obtain rfl := Option.some.inj (hd.symm.trans hd')
  rw [hnonce'] at hnonce
  grind

end Turns

/-! ### What keeps the accounts in order -/

/-- The branches of a turn of the first loop that would add a transaction without a charge, charge an
issuer without a balance, or take back more than the transaction are not taken. -/
structure RegularTurn (S : NodeServices) (st : BlockState LedgerFlow) (t : PoolTransaction) :
    Prop where
  matching : keyMatchesIssuer S t = .ok false → withinLimits S (st.tally S t {}) = false
  funded : ∀ processed, Processes S st t processed →
    processed.receipt.doNotIncludeInChain = false → ∀ d,
    processed.base st.manager.current processed.confirmedDomainID = some d → d.assetType ≠ .noData
  failing : ∀ processed l, Processes S st t processed →
    processed.receipt.doNotIncludeInChain = false → processed.confirmedDomainID ≠ [] →
    chargeFor S st t processed = .ok (some l) → rollsBack processed.receipt false = true →
    withinLimits S (st.tally S t processed.receipt) = false →
    st.manager.older.getLast? = some st.manager.current

section Settled

variable {S : NodeServices} {DB : Type} {T : LedgerTrie DB}

/-- What is left of the outcomes of a turn that takes none of these branches. -/
theorem RegularTurn.cases {st st' : BlockState LedgerFlow} {t : PoolTransaction}
    {processed : Processed} {ending : TurnEnd} (hregular : RegularTurn S st t)
    (hprocesses : Processes S st t processed)
    (hid : memcmpEq processed.receipt.mVerifiableID (S.getHash t.toCTransaction) 32 = .ok true)
    (houtcome : FormationOutcome S st t processed ending st') :
    (∃ l, Included S st t processed l ∧ st' = includedState S st t processed l) ∨
      ∃ older countOfDomains issuersWithSuccessfulTx,
        st' = { st with
          manager := { st.manager with older }, countOfDomains, issuersWithSuccessfulTx } := by
  cases houtcome with
  | refused hdiscard => exact Or.inr ⟨_, _, _, rfl⟩
  | unpaid hkept hconfirmed hcharged => exact Or.inr ⟨_, _, _, rfl⟩
  | unconfirmed hkept hnone hwithin =>
      have hmismatch := mismatch_of_unconfirmed hprocesses.processes hkept hnone
      obtain rfl := Except.ok.inj
        ((processOver_mismatch hmismatch).symm.trans hprocesses.processes)
      exact Bool.noConfusion (hwithin.symm.trans (hregular.matching hmismatch))
  | included hkept hconfirmed hcharged hwithin =>
      exact Or.inl ⟨_, ⟨hprocesses, hid, hkept, hconfirmed, hcharged, hwithin⟩, rfl⟩
  | overflow countOfDomains issuersWithSuccessfulTx hkept hbase hwithin =>
      exact Or.inr ⟨_, _, _, rfl⟩
  | overflowRolledBack countOfDomains issuersWithSuccessfulTx hkept hconfirmed hcharged hrolled
      hwithin hbelow =>
      have hsame := hregular.failing _ _ hprocesses hkept hconfirmed hcharged hrolled hwithin
      obtain rfl := Option.some.inj (hbelow.symm.trans hsame)
      exact Or.inr ⟨_, _, _, rfl⟩

/-- What a turn of a run in order has done: the transaction is included, or domains, block and counters
are left alone. -/
inductive TurnEffect (S : NodeServices) (T : LedgerTrie DB)
    (turn : BlockTurn (TransactionManager DB)) (f : LedgerFlow) : Prop
  | included {processed : Processed} {l : Ledger}
      (hincluded : Included S (turn.before.over f) turn.transaction processed l)
      (hfunded : ∀ d, processed.base f.current processed.confirmedDomainID = some d →
        d.assetType ≠ .noData)
      (hafter : turn.after =
        (includedState S (turn.before.over f) turn.transaction processed l).over turn.after.manager)
      (hholds : turn.after.manager.Holds T
        (includedState S (turn.before.over f) turn.transaction processed l).manager)
  | leftAlone {f' : LedgerFlow} (hcurrent : f'.current = f.current)
      (hholds : turn.after.manager.Holds T f')
      (hproposal : turn.after.proposal = turn.before.proposal)
      (hreceipts : turn.after.receipts = turn.before.receipts)
      (hcounters : SameCounters turn.before turn.after)

variable {turn : BlockTurn (TransactionManager DB)} {f : LedgerFlow}

/-- A turn of the first loop that takes none of the branches. -/
theorem FormationTurn.effect (hturn : FormationTurn S T turn) (hholds : turn.before.manager.Holds T f)
    (hckpt : turn.before.proposal.isCheckpointed = false)
    (hregular : RegularTurn S (turn.before.over f) turn.transaction) : TurnEffect S T turn f := by
  obtain ⟨processed, sf, hprocesses, hid, houtcome, hafter, hholds'⟩ := hturn f hholds hckpt
  rcases hregular.cases hprocesses hid houtcome with ⟨l, hincluded, rfl⟩ | ⟨older, count, issuers, rfl⟩
  · exact TurnEffect.included hincluded
      (hregular.funded processed hprocesses hincluded.kept) hafter hholds'
  · refine TurnEffect.leftAlone ?_ hholds' ?_ ?_ ?_
    · rfl
    · rw [hafter]
      rfl
    · rw [hafter]
      rfl
    · rw [hafter]
      exact ⟨rfl, rfl, rfl⟩

/-- A turn of the second loop that adds nothing. -/
theorem RetryTurn.effect (hturn : RetryTurn S T turn) (hholds : turn.before.manager.Holds T f)
    (hrefused : ∀ processed, Processes S (turn.before.over f) turn.transaction processed →
      processed.receipt.doNotIncludeInChain = true ∨ processed.confirmedDomainID = []) :
    TurnEffect S T turn f := by
  obtain ⟨processed, sf, hprocesses, houtcome, hafter, hholds'⟩ := hturn f hholds
  rcases houtcome with ⟨-, rfl⟩ | ⟨hkept, hconfirmed, -⟩
  · refine TurnEffect.leftAlone rfl hholds' ?_ ?_ ?_
    · rw [hafter]
      rfl
    · rw [hafter]
      rfl
    · rw [hafter]
      exact ⟨rfl, rfl, rfl⟩
  · rcases hrefused processed hprocesses with hdiscard | hnone
    · exact Bool.noConfusion (hkept.symm.trans hdiscard)
    · exact absurd hnone hconfirmed

/-- The accounts are in order behind such a turn. -/
theorem TurnEffect.settled (hscripts : ScriptsKeepNonces S) (hholds : turn.before.manager.Holds T f)
    (heffect : TurnEffect S T turn f) : turn.Accounted S T ∨ turn.Untouched T := by
  have hbefore : turn.ledger T = f.current := hholds.current
  cases heffect with
  | @included processed l hincluded hfunded hafter hholds' =>
      obtain ⟨issuerSD, base, hissuer, hbase, hraises, hpays⟩ :=
        included_accounts hscripts hincluded hfunded
      have hledger : turn.after.manager.ledger T = l := hholds'.current
      refine Or.inl ⟨processed.receipt, processed.confirmedDomainID, issuerSD, base, ?_⟩
      rw [hbefore, hledger, hafter]
      exact ⟨hissuer, hbase, hraises, hpays, rfl, rfl, ⟨rfl, rfl, rfl⟩, hincluded.within⟩
  | @leftAlone f' hcurrent hholds' hproposal hreceipts hcounters =>
      have hledger : turn.after.manager.ledger T = turn.ledger T := by
        rw [hholds'.current, hcurrent, hbefore]
      refine Or.inr ⟨?_, congrArg CBlockProposal.transactions hproposal, hreceipts, hcounters⟩
      rw [hledger]
      exact Ledger.SameAccounts.refl _

end Settled

end Gridnet
