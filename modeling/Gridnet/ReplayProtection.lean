import Gridnet.BlockVerification
import Gridnet.Nonces

/-! Replay protection: whether each transaction of an accepted block takes effect at the nonce that
follows its issuer's, and whether any takes effect twice over a sequence of accepted blocks. -/

namespace Gridnet

open TransactionManager

/-! ### Turns -/

/-- What an issuer needs before a transaction of its own is carried out: the nonce before the
transaction's, a sufficient price, and a balance that covers it. A sacrifice has its form. -/
structure Due (S : NodeServices) (t : PoolTransaction) (keyHeight : UInt64)
    (issuerSD : StateDomain) : Prop where
  nonce : issuerSD.mNonce.toNat + 1 = t.mNonce.toNat
  price : ¬ (t.mErgPrice = 0 ∨ t.mErgPrice < S.getMinNodeERGPrice keyHeight)
  funded : issuerSD.getBalance ≠ 0
  covered : ¬ issuerSD.getBalance < t.mErgLimit * t.mErgPrice
  sacrifice : SacrificeWellFormed S t

namespace BlockTurn

variable {DB : Type}

/-- Where the turn authenticates an issuer, the transaction is due. -/
def InOrder (S : NodeServices) (T : LedgerTrie DB)
    (turn : BlockTurn (TransactionManager DB)) : Prop :=
  ∀ confirmedDomainID issuerSD,
    authenticate S (turn.ledger T) turn.transaction true = .ok (confirmedDomainID, issuerSD) →
      Due S turn.transaction turn.before.proposal.keyHeight issuerSD

/-- The transaction passes all checks before the script, at the nonce after its issuer's, and the
turn raises that nonce once and no other. -/
def TakesEffect (S : NodeServices) (T : LedgerTrie DB)
    (turn : BlockTurn (TransactionManager DB)) : Prop :=
  ∃ pubKey issuerSD, IssuerStartsWithAddress S turn.transaction ∧
    keyOf (turn.ledger T) turn.transaction = some pubKey ∧
    Chargeable S (turn.ledger T) turn.transaction turn.before.proposal.keyHeight pubKey issuerSD ∧
    SacrificeWellFormed S turn.transaction ∧
    issuerSD.mNonce.toNat + 1 = turn.transaction.mNonce.toNat ∧
    RaisesNonce (turn.ledger T) (turn.after.manager.ledger T)
      (Ledger.addressOf (S.genAddress pubKey).2) turn.transaction.mNonce

/-- The issuer that the turn authenticates, with the nonce of the transaction. -/
def effect (S : NodeServices) (T : LedgerTrie DB) (turn : BlockTurn (TransactionManager DB)) :
    Option (Bytes × ℕ) :=
  match authenticate S (turn.ledger T) turn.transaction true with
  | .error _ => none
  | .ok (confirmedDomainID, _) => some (confirmedDomainID, turn.transaction.mNonce.toNat)

end BlockTurn

section Turns

variable {S : NodeServices} {DB : Type} {T : LedgerTrie DB} {turn : BlockTurn (TransactionManager DB)}

/-- A turn that verified its transaction has authenticated an issuer and raised its nonce by one,
whether or not the script was run. -/
theorem VerifiedTurn.raises (hscripts : ScriptsKeepNonces S)
    (hverified : VerifiedTurn S T turn) :
    ∃ pubKey issuerSD, IssuerStartsWithAddress S turn.transaction ∧
      authenticate S (turn.ledger T) turn.transaction true =
        .ok (Ledger.addressOf (S.genAddress pubKey).2, issuerSD) ∧
      keyOf (turn.ledger T) turn.transaction = some pubKey ∧ pubKey.length = 32 ∧
      turn.transaction.verifySignature S pubKey = true ∧ (S.genAddress pubKey).1 = true ∧
      (turn.ledger T).findByID (S.genAddress pubKey).2 = some issuerSD ∧
      RaisesNonce (turn.ledger T) (turn.after.manager.ledger T)
        (Ledger.addressOf (S.genAddress pubKey).2) (issuerSD.mNonce + 1) := by
  obtain ⟨f, blockReceipt, processed, l, hholds, hverified, hafter, -⟩ := hverified
  have hledger : turn.ledger T = f.current := hholds.current
  have hledger' : turn.after.manager.ledger T = l := hafter.current
  rw [hledger, hledger']
  rcases processOver_cases hverified.processes with ⟨hnone, -⟩ | ⟨issuerSD, -, hmatch, hauth, hcarry⟩
  · exact absurd hnone hverified.confirmed
  have hauth' : authenticate S f.current turn.transaction true =
      .ok (processed.confirmedDomainID, issuerSD) := hauth
  obtain ⟨pubKey, hkey, hlength, hsigned, haddress, hdomain, hid⟩ :=
    authenticate_eq_ok_iff.mp hauth'
  have hkeeps : f.current.KeepsNonces (processed.base f.current) := base_keepsNonces hscripts hcarry
  rw [hid] at hauth'
  refine ⟨pubKey, issuerSD, issuerStartsWithAddress_of_match hmatch, hauth',
    (resolveKey_eq_ok_iff.mp hkey).1, hlength, hsigned, haddress, hdomain, ?_⟩
  have hcharged := hverified.charged
  rw [hid] at hcharged
  exact raisesNonce_of_charged hkeeps (Ledger.addressOf_addressOf _) hdomain hcharged

/-- A turn of an accepted block takes effect exactly if its transaction is due. -/
theorem VerifiedTurn.takesEffect_iff (hscripts : ScriptsKeepNonces S)
    (hverified : VerifiedTurn S T turn) : turn.TakesEffect S T ↔ turn.InOrder S T := by
  obtain ⟨pubKey, issuerSD, hstarts, hauth, hkey, hlength, hsigned, haddress, hdomain, hraises⟩ :=
    hverified.raises hscripts
  constructor
  · rintro ⟨key, found, -, hkey', hcharge, hsacrifice, hnonce, -⟩ confirmedDomainID sd hsd
    obtain ⟨-, rfl⟩ := Prod.mk.inj (Except.ok.inj (hauth.symm.trans hsd))
    obtain rfl := Option.some.inj (hkey.symm.trans hkey')
    obtain rfl := Option.some.inj (hdomain.symm.trans hcharge.domain)
    exact ⟨hnonce, hcharge.price, hcharge.funded, hcharge.covered, hsacrifice⟩
  · intro horder
    have hdue := horder _ _ hauth
    have hnext := add_one_eq_of_toNat hdue.nonce.symm
    refine ⟨pubKey, issuerSD, hstarts, hkey, ⟨⟨hlength, hsigned, haddress, hdomain, hdue.price,
      hdue.covered⟩, hnext, hdue.funded⟩, hdue.sacrifice, hdue.nonce, ?_⟩
    rw [← hnext]
    exact hraises

/-- Turns that take effect spend the nonces of their issuers. -/
theorem spends_of_linked (hscripts : ScriptsKeepNonces S)
    {turns : List (BlockTurn (TransactionManager DB))}
    {st st' : BlockState (TransactionManager DB)} (hlinked : Linked st turns st')
    (hverified : ∀ turn ∈ turns, VerifiedTurn S T turn)
    (horder : ∀ turn ∈ turns, turn.InOrder S T) :
    Counters.Spends (st.manager.ledger T).nonces (turns.filterMap (BlockTurn.effect S T))
      (st'.manager.ledger T).nonces := by
  induction turns generalizing st with
  | nil =>
      obtain rfl : st = st' := hlinked
      exact Counters.Spends.done _
  | cons turn turns ih =>
      obtain ⟨rfl, hrest⟩ := hlinked
      have hspends := ih hrest (fun x hx => hverified x (List.mem_cons_of_mem _ hx))
        fun x hx => horder x (List.mem_cons_of_mem _ hx)
      obtain ⟨pubKey, issuerSD, -, hauth, -, -, -, -, hdomain, hraises⟩ :=
        (hverified turn List.mem_cons_self).raises hscripts
      have hdue := horder turn List.mem_cons_self _ _ hauth
      have hnext := add_one_eq_of_toNat hdue.nonce.symm
      have heffect : turn.effect S T =
          some (Ledger.addressOf (S.genAddress pubKey).2, turn.transaction.mNonce.toNat) := by
        rw [BlockTurn.effect, hauth]
      have hless : issuerSD.mNonce.toNat < turn.transaction.mNonce.toNat := by
        have hnonce := hdue.nonce
        omega
      rw [hnext] at hraises
      obtain ⟨d, hd, hnonce⟩ := hraises.raised
      rw [List.filterMap_cons_some heffect]
      refine Counters.Spends.spend (Ledger.nonces_eq_some hdomain) hless ?_
        (hraises.grow hdomain hless) hspends
      rw [Ledger.nonces_eq_some hd, hnonce]

end Turns

/-! ### Sequences of accepted blocks -/

section Blocks

variable {S : NodeServices} {DB : Type} {T : LedgerTrie DB}

/-- The flow of a block starts from what the block before it left; rewards and the like, which come in
between, change no nonce. -/
def Follows (b b' : AcceptedBlock S T) : Prop :=
  (b.finish.manager.ledger T).KeepsNonces (b'.start.manager.ledger T)

theorem spends_of_blocks (hT : T.Documented) (hscripts : ScriptsKeepNonces S)
    {b : AcceptedBlock S T} {blocks : List (AcceptedBlock S T)}
    (hfollows : (b :: blocks).IsChain Follows)
    (horder : ∀ b' ∈ b :: blocks, ∀ turn ∈ b'.turns, turn.InOrder S T) :
    ∃ c, Counters.Spends (b.start.manager.ledger T).nonces
      ((b :: blocks).flatMap fun b' => b'.turns.filterMap (BlockTurn.effect S T)) c := by
  induction blocks generalizing b with
  | nil =>
      obtain ⟨-, st, hrun, -⟩ := b.verifiedRun hT
      have hspends := spends_of_linked hscripts hrun.linked hrun.verified
        (horder b List.mem_cons_self)
      rw [List.flatMap_cons, List.flatMap_nil, List.append_nil]
      exact ⟨_, hspends⟩
  | cons b' blocks ih =>
      obtain ⟨hnext, hchain⟩ := List.isChain_cons_cons.mp hfollows
      obtain ⟨c, hrest⟩ := ih hchain fun x hx => horder x (List.mem_cons_of_mem _ hx)
      obtain ⟨-, st, hrun, hmanager⟩ := b.verifiedRun hT
      have hfirst := spends_of_linked hscripts hrun.linked hrun.verified
        (horder b List.mem_cons_self)
      rw [hmanager] at hfirst
      rw [List.flatMap_cons]
      exact ⟨c, hfirst.append (Counters.Spends.grow hnext.grow hrest)⟩

/-- Over any sequence of accepted blocks, every transaction has a turn. All of them take effect exactly
if every transaction is due at its turn, and then no issuer uses a nonce twice. -/
theorem acceptedBlocks_takeEffect_iff (hT : T.Documented) (hscripts : ScriptsKeepNonces S)
    {blocks : List (AcceptedBlock S T)} (hfollows : blocks.IsChain Follows) :
    (∀ b ∈ blocks, b.turns.map (fun turn => turn.transaction.toCTransaction) =
      b.start.proposal.transactions) ∧
    ((∀ b ∈ blocks, ∀ turn ∈ b.turns, turn.TakesEffect S T) ↔
      ∀ b ∈ blocks, ∀ turn ∈ b.turns, turn.InOrder S T) ∧
    ((∀ b ∈ blocks, ∀ turn ∈ b.turns, turn.InOrder S T) →
      (blocks.flatMap fun b => b.turns.filterMap (BlockTurn.effect S T)).Nodup) := by
  refine ⟨fun b _ => ?_, ?_, fun horder => ?_⟩
  · obtain ⟨hturns, -⟩ := b.verifiedRun hT
    rw [← b.listed, ← hturns, List.map_map]
    rfl
  · have hiff : ∀ b : AcceptedBlock S T, ∀ turn ∈ b.turns,
        (turn.TakesEffect S T ↔ turn.InOrder S T) := by
      intro b turn hturn
      obtain ⟨-, st, hrun, -⟩ := b.verifiedRun hT
      exact (hrun.verified turn hturn).takesEffect_iff hscripts
    constructor
    · intro heffect b hb turn hturn
      exact (hiff b turn hturn).mp (heffect b hb turn hturn)
    · intro horder b hb turn hturn
      exact (hiff b turn hturn).mpr (horder b hb turn hturn)
  · cases blocks with
    | nil => exact List.nodup_nil
    | cons b blocks =>
        obtain ⟨c, hspends⟩ := spends_of_blocks hT hscripts hfollows horder
        exact hspends.nodup

end Blocks

section Samples

def verifyMode : ProcessingMode where
  markAsProcessed := true
  addToBlock := false
  verifyAgainstBlock := true

/-- A block with the given transactions of the first owner, each with a receipt. -/
def sampleBlockState (ts : List PoolTransaction) : BlockState (TransactionManager (Ledger × Bytes)) where
  manager := sampleFlow
  proposal := {
    transactions := ts.map PoolTransaction.toCTransaction
    receipts := ts.map fun t =>
      { mGUID := sampleServices.getHash t.toCTransaction
        mVerifiableID := sampleServices.getHash t.toCTransaction } }

/-- The block of the given transactions, if it is accepted. -/
theorem sampleBlock_exists (ts : List PoolTransaction)
    (haccepted : ((processTransactions sampleServices verifyMode
      (managerCalls sampleServices sampleTrie) (fun _ => true) ts [] (sampleBlockState ts)).toOption.map
        (·.1)) = some true) :
    ∃ b : AcceptedBlock sampleServices sampleTrie, b.mode = verifyMode ∧
      b.running = (fun _ => true) ∧ b.transactions = ts ∧ b.unprocessed = [] ∧
      b.start = sampleBlockState ts := by
  obtain ⟨⟨accepted, marked, finish⟩, hresult, htrue⟩ := Option.map_eq_some_iff.mp haccepted
  dsimp only at htrue
  subst htrue
  exact ⟨{
    mode := verifyMode
    running := fun _ => true
    transactions := ts
    unprocessed := []
    start := sampleBlockState ts
    marked
    finish
    verifies := rfl
    notCheckpointed := rfl
    listed := rfl
    ready := sampleFlow_ready
    accepted := toOption_eq_some.mp hresult }, rfl, rfl, rfl, rfl, rfl⟩

theorem sampleTransaction_due {confirmedDomainID : Bytes} {issuerSD : StateDomain}
    (hauth : authenticate sampleServices sampleLedger (sampleTransaction 1) true =
      .ok (confirmedDomainID, issuerSD)) : Due sampleServices (sampleTransaction 1) 0 issuerSD := by
  have hfound : authenticate sampleServices sampleLedger (sampleTransaction 1) true =
      .ok (sampleAddress 1,
        { assetType := .BigInt, assetValue := 500, IDToken := some (sampleKey 1) }) := rfl
  obtain ⟨-, rfl⟩ := Prod.mk.inj (Except.ok.inj (hfound.symm.trans hauth))
  exact ⟨by decide, by decide, by decide, by decide, fun h => Bool.false_ne_true h.1⟩

/-- A block with one transaction, which is due. -/
theorem sample_takesEffect :
    ∃ b : AcceptedBlock sampleServices sampleTrie, b.transactions = [sampleTransaction 1] ∧
      (∀ turn ∈ b.turns, turn.TakesEffect sampleServices sampleTrie) ∧
      (b.turns.filterMap (BlockTurn.effect sampleServices sampleTrie)).Nodup := by
  obtain ⟨b, -, -, hts, -, hstart⟩ :=
    sampleBlock_exists [sampleTransaction 1] (by decide +kernel)
  obtain ⟨-, hiff, hnodup⟩ := acceptedBlocks_takeEffect_iff sampleTrie_documented
    sample_scriptsKeepNonces (List.isChain_singleton b)
  have horder : ∀ b' ∈ [b], ∀ turn ∈ b'.turns, turn.InOrder sampleServices sampleTrie := by
    intro b' hb' turn hturn
    obtain rfl := List.mem_singleton.mp hb'
    obtain ⟨hturns, st, hrun, -⟩ := b'.verifiedRun sampleTrie_documented
    obtain ⟨only, honly, htransaction⟩ := List.map_eq_singleton_iff.mp (hturns.trans hts)
    have hlinked := hrun.linked
    rw [honly] at hlinked hturn
    obtain rfl := List.mem_singleton.mp hturn
    have hbefore : turn.before = (sampleBlockState [sampleTransaction 1]).begun :=
      hlinked.1.trans (congrArg _ hstart)
    intro confirmedDomainID issuerSD hauth
    rw [BlockTurn.ledger, hbefore, htransaction] at hauth
    rw [hbefore, htransaction]
    exact sampleTransaction_due hauth
  refine ⟨b, hts, hiff.mpr horder b List.mem_cons_self, ?_⟩
  have hflat := hnodup horder
  rwa [List.flatMap_cons, List.flatMap_nil, List.append_nil] at hflat

/-- The same transaction twice in a block: it is accepted, and the second turn, refused for its nonce,
raises the nonce of the issuer again. -/
theorem replayed_transaction_accepted :
    ∃ b : AcceptedBlock sampleServices sampleTrie,
      b.transactions = [sampleTransaction 1, sampleTransaction 1] ∧
      (∃ turn ∈ b.turns, ¬ turn.TakesEffect sampleServices sampleTrie) ∧
      ((b.finish.manager.ledger sampleTrie).findByID (sampleAddress 1)).map (·.mNonce) =
        some 2 := by
  obtain ⟨b, hmode, hrunning, hts, hunprocessed, hstart⟩ :=
    sampleBlock_exists [sampleTransaction 1, sampleTransaction 1] (by decide +kernel)
  refine ⟨b, hts, ?_, ?_⟩
  · have hsecond : ((mainTurns sampleServices verifyMode
        (managerCalls sampleServices sampleTrie) (fun _ => true)
        [sampleTransaction 1, sampleTransaction 1]
        (sampleBlockState [sampleTransaction 1, sampleTransaction 1]))[1]?).map
          (fun turn => (turn.transaction,
            ((turn.ledger sampleTrie).findByID (sampleAddress 1)).map (·.mNonce))) =
        some (sampleTransaction 1, some 1) := by decide +kernel
    have hturns : b.turns = mainTurns sampleServices verifyMode
        (managerCalls sampleServices sampleTrie) (fun _ => true)
        [sampleTransaction 1, sampleTransaction 1]
        (sampleBlockState [sampleTransaction 1, sampleTransaction 1]) := by
      rw [AcceptedBlock.turns, hmode, hrunning, hts, hstart]
    rw [← hturns] at hsecond
    obtain ⟨turn, hturn, hfacts⟩ := Option.map_eq_some_iff.mp hsecond
    obtain ⟨htransaction, hnonce⟩ := Prod.mk.inj hfacts
    refine ⟨turn, List.mem_of_getElem? hturn, ?_⟩
    rintro ⟨pubKey, issuerSD, -, hkey, hcharge, -, hnext, -⟩
    rw [htransaction] at hkey hnext
    obtain rfl : sampleKey 1 = pubKey := Option.some.inj hkey
    have hdomain : (turn.ledger sampleTrie).findByID (sampleAddress 1) = some issuerSD :=
      hcharge.domain
    rw [hdomain, Option.map_some] at hnonce
    rw [Option.some.inj hnonce] at hnext
    cases hnext
  · have haccepted := b.accepted
    rw [hmode, hrunning, hts, hunprocessed, hstart] at haccepted
    have hfinish : (processTransactions sampleServices verifyMode
        (managerCalls sampleServices sampleTrie) (fun _ => true)
        [sampleTransaction 1, sampleTransaction 1] []
        (sampleBlockState [sampleTransaction 1, sampleTransaction 1])).toOption.map
          (fun x => ((x.2.2.manager.ledger sampleTrie).findByID (sampleAddress 1)).map
            (·.mNonce)) = some (some 2) := by decide +kernel
    rw [haccepted] at hfinish
    exact Option.some.inj hfinish

end Samples

end Gridnet
