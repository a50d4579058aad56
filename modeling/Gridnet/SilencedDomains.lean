import Gridnet.BlockFormation

/-! Silenced domains: when a new transaction that authenticates as one of them is turned away, and what
that means for the balance of the domain over the formation of a block. -/

namespace Gridnet

open TransactionManager

section Admission

variable (S : NodeServices)

/-- The key that the transaction is authenticated with has the address of the domain `d`. -/
def AuthenticatedBy (l : Ledger) (t : PoolTransaction) (d : Bytes) : Prop :=
  ∃ pubKey, keyOf l t = some pubKey ∧ t.verifySignature S pubKey = true ∧
    (S.genAddress pubKey).1 = true ∧
    Ledger.addressOf (S.genAddress pubKey).2 = Ledger.addressOf d

/-- A new transaction gets a receipt that is not to be included, without its script being run and
without a change of the domains. -/
def CannotAct {DB : Type} (T : LedgerTrie DB) (m : TransactionManager DB) (t : PoolTransaction)
    (keyHeight : UInt64) (receiptID : Bytes) (excuseERGusage : Bool) : Prop :=
  ∃ processed m', processTransaction S T m t keyHeight receiptID none none excuseERGusage false =
      .ok (processed, m') ∧
    processed.receipt.doNotIncludeInChain = true ∧ processed.scriptCall = none ∧
    m'.ledger T = m.ledger T

/-- What the domain has to have before its transaction is charged. -/
def Affords (t : PoolTransaction) (keyHeight : UInt64) (issuerSD : StateDomain) : Prop :=
  issuerSD.mNonce + 1 = t.mNonce ∧
    ¬ (t.mErgPrice = 0 ∨ t.mErgPrice < S.getMinNodeERGPrice keyHeight) ∧
    issuerSD.getBalance ≠ 0 ∧ ¬ issuerSD.getBalance < t.mErgLimit * t.mErgPrice

/-- A transaction of the domain `d` is turned away: its limit and its issuer are well-formed, and its
issuer is looked up and silenced by its name, or the domain cannot be charged for it. -/
structure TurnedAway (l : Ledger) (t : PoolTransaction) (keyHeight : UInt64) (d : Bytes) :
    Prop where
  limit : ¬ t.mErgLimit < S.getMinERGLimit
  issuer : IssuerStartsWithAddress S t
  refused : t.mPubKey.length ≠ 32 ∧ IssuerSilenced S t ∨
    ∀ issuerSD, l.findByID d = some issuerSD → ¬ Affords S t keyHeight issuerSD

variable {S} {l : Ledger} {t : PoolTransaction} {keyHeight : UInt64} {receiptID : Bytes}
  {excuseERGusage : Bool} {d : Bytes}

theorem keyMatchesIssuer_of_starts (hstarts : IssuerStartsWithAddress S t) :
    keyMatchesIssuer S t = .ok true := by
  have hreaches : IssuerReaches S t := fun hkey hissuer => (hstarts hkey hissuer).1
  obtain ⟨matching, heq, hmatching⟩ := keyMatchesIssuer_eq hreaches
  rw [heq, hmatching.mpr hstarts]

theorem resolveKey_of_silenced (hlength : t.mPubKey.length ≠ 32) (hsilenced : IssuerSilenced S t) :
    resolveKey S l t false = .error .invalidSig := by
  rw [resolveKey, if_neg hlength, if_neg hsilenced.1, if_pos ⟨rfl, hsilenced.2⟩]

/-- What is left of authentication for a key that was found and verified. -/
theorem AuthenticatedBy.authenticate (hauth : AuthenticatedBy S l t d)
    (hfree : ¬ (t.mPubKey.length ≠ 32 ∧ IssuerSilenced S t)) :
    Gridnet.authenticate S l t false =
      match l.findByID d with
      | none => .error .unknownIssuer
      | some issuerSD => .ok (Ledger.addressOf d, issuerSD) := by
  obtain ⟨pubKey, hkey, hsigned, haddress, hdomain⟩ := hauth
  have hopen : t.mPubKey.length = 32 ∨ false = true ∨ ¬ IssuerSilenced S t := by
    by_cases hlength : t.mPubKey.length = 32
    · exact Or.inl hlength
    · exact Or.inr (Or.inr fun hsilenced => hfree ⟨hlength, hsilenced⟩)
  have hresolve : resolveKey S l t false = .ok pubKey := resolveKey_eq_ok_iff.mpr ⟨hkey, hopen⟩
  have hlength : pubKey.length = 32 := keyOf_length hkey
  unfold Gridnet.authenticate
  rw [hresolve]
  dsimp only
  have hfind : l.findByID (S.genAddress pubKey).2 = l.findByID d := congrArg l hdomain
  cases hfound : l.findByID d with
  | none =>
      rw [if_neg (not_not_intro hlength), hsigned, if_neg nofun, haddress, if_neg nofun, hfind, hfound]
  | some issuerSD =>
      rw [if_neg (not_not_intro hlength), hsigned, if_neg nofun, haddress, if_neg nofun, hfind, hfound, hdomain]

/-- The verdict on an issuer leaves a new transaction out, and does nothing else, exactly if the issuer
cannot afford it. -/
theorem judgeIssuer_discards_iff {confirmedDomainID : Bytes} {issuerSD : StateDomain} :
    (∃ processed, carryOut S l t keyHeight receiptID none none excuseERGusage
        (judgeIssuer S t keyHeight false false confirmedDomainID issuerSD) = .ok processed ∧
        processed.receipt.doNotIncludeInChain = true ∧ processed.scriptCall = none ∧
        processed.changed = none) ↔ ¬ Affords S t keyHeight issuerSD := by
  unfold judgeIssuer Affords
  rw [if_neg (c := false = true) Bool.false_ne_true]
  split_ifs with hnonce hprice hfunded hcovered hsacrifice
  · exact ⟨fun _ h => hnonce.1 h.1, fun _ => ⟨_, rfl, rfl, rfl, rfl⟩⟩
  · exact ⟨fun _ h => h.2.1 hprice, fun _ => ⟨_, rfl, rfl, rfl, rfl⟩⟩
  · exact ⟨fun _ h => h.2.2.1 hfunded, fun _ => ⟨_, rfl, rfl, rfl, rfl⟩⟩
  · exact ⟨fun _ h => h.2.2.2 hcovered, fun _ => ⟨_, rfl, rfl, rfl, rfl⟩⟩
  · have hnext : issuerSD.mNonce + 1 = t.mNonce := Decidable.not_not.mp fun h => hnonce ⟨h, rfl⟩
    refine ⟨?_, fun h => absurd ⟨hnext, hprice, hfunded, hcovered⟩ h⟩
    rintro ⟨processed, hcarry, hdiscard, -⟩
    cases hcarry
    cases hdiscard
  · have hnext : issuerSD.mNonce + 1 = t.mNonce := Decidable.not_not.mp fun h => hnonce ⟨h, rfl⟩
    refine ⟨?_, fun h => absurd ⟨hnext, hprice, hfunded, hcovered⟩ h⟩
    rintro ⟨processed, hcarry, -, hscript, -⟩
    cases hcarry
    cases hscript

/-- Over the domains: a new transaction that authenticates as `d` is left out, without its script and
without a change, exactly if it is turned away. -/
theorem processOver_turnedAway_iff (hauth : AuthenticatedBy S l t d)
    (hlimit : ¬ t.mErgLimit < S.getMinERGLimit) :
    (∃ processed, processOver S l t keyHeight receiptID none none excuseERGusage false =
        .ok processed ∧ processed.receipt.doNotIncludeInChain = true ∧
        processed.scriptCall = none ∧ processed.changed = none) ↔
      TurnedAway S l t keyHeight d := by
  unfold processOver judge
  cases hmatch : keyMatchesIssuer S t with
  | error e =>
      refine ⟨fun ⟨_, h, _⟩ => (nomatch h), fun haway => ?_⟩
      exact absurd (hmatch.symm.trans (keyMatchesIssuer_of_starts haway.issuer)) nofun
  | ok matching =>
      cases matching with
      | false =>
          refine ⟨?_, fun haway => ?_⟩
          · rintro ⟨processed, hprocess, hdiscard, -⟩
            cases hprocess
            cases hdiscard
          · exact absurd (hmatch.symm.trans (keyMatchesIssuer_of_starts haway.issuer)) nofun
      | true =>
          have hstarts := issuerStartsWithAddress_of_match hmatch
          dsimp only [Option.isSome]
          by_cases hfree : t.mPubKey.length ≠ 32 ∧ IssuerSilenced S t
          · rw [authenticate, resolveKey_of_silenced hfree.1 hfree.2]
            exact ⟨fun _ => ⟨hlimit, hstarts, Or.inl hfree⟩, fun _ => ⟨_, rfl, rfl, rfl, rfl⟩⟩
          rw [hauth.authenticate hfree]
          cases hdomain : l.findByID d with
          | none =>
              refine ⟨fun _ => ⟨hlimit, hstarts, Or.inr fun _ h => ?_⟩,
                fun _ => ⟨_, rfl, rfl, rfl, rfl⟩⟩
              rw [hdomain] at h
              cases h
          | some issuerSD =>
              refine Iff.trans judgeIssuer_discards_iff ⟨fun hnot => ⟨hlimit, hstarts, Or.inr fun sd hsd => ?_⟩,
                fun haway => ?_⟩
              · obtain rfl := Option.some.inj (hdomain.symm.trans hsd)
                exact hnot
              · exact (haway.refused.resolve_left hfree) issuerSD hdomain

/-- A new transaction that authenticates as `d` cannot act exactly if it is turned away. -/
theorem cannotAct_iff {DB : Type} {T : LedgerTrie DB} (hT : T.Documented)
    {m : TransactionManager DB} (hm : m.WellFormed T.toTrieDB)
    (htwo : 2 ≤ m.mAllowedInterFlowSteps) (hauth : AuthenticatedBy S (m.ledger T) t d) :
    CannotAct S T m t keyHeight receiptID excuseERGusage ↔
      TurnedAway S (m.ledger T) t keyHeight d := by
  by_cases hlimit : t.mErgLimit < S.getMinERGLimit
  · constructor
    · rintro ⟨processed, m', hprocess, -⟩
      rw [processTransaction, if_pos ⟨rfl, hlimit⟩] at hprocess
      cases hprocess
    · intro haway
      exact absurd hlimit haway.limit
  obtain ⟨m₁, hpush, hstate⟩ := pushDB_ok hm htwo (T.copy m.mFlowStateDB) true []
  have hledger : m₁.ledger T = m.ledger T := congrArg T.domains hstate
  have hnew : ¬ ((none : Option CBlockProposal) = none ∧ t.mErgLimit < S.getMinERGLimit) :=
    fun h => hlimit h.2
  have hprocess := processTransaction_eq hT hpush hnew keyHeight receiptID none excuseERGusage false
  rw [hledger] at hprocess
  rw [← processOver_turnedAway_iff hauth hlimit, CannotAct, hprocess]
  constructor
  · rintro ⟨processed, m', hok, hdiscard, hscript, -⟩
    cases hover : processOver S (m.ledger T) t keyHeight receiptID none none excuseERGusage false with
    | error e =>
        rw [hover] at hok
        cases hok
    | ok found =>
        rw [hover] at hok
        obtain ⟨rfl, rfl⟩ := Prod.mk.inj (Except.ok.inj hok)
        exact ⟨found, rfl, hdiscard, hscript, changed_eq_none hover hscript⟩
  · rintro ⟨processed, hover, hdiscard, hscript, hchanged⟩
    rw [hover]
    refine ⟨processed, _, rfl, hdiscard, hscript, ?_⟩
    rw [hchanged]
    exact hledger

end Admission

/-! ### The balance of a silenced domain -/

/-- The domain has at least the balance `b`. -/
def Ledger.Funded (l : Ledger) (d : Bytes) (b : BigInt) : Prop :=
  ∃ sd, l.findByID d = some sd ∧ b ≤ sd.getBalance

/-- Scripts of other issuers take nothing from the domain. -/
def ScriptsSpare (S : NodeServices) (d : Bytes) : Prop :=
  ∀ (call : ScriptCall) (l : Ledger) b, call.issuer ≠ Ledger.addressOf d →
    l.Funded d b → (S.processScript call l).2.Funded d b

/-- The flow state and all that it can be taken back to leave the domain at least the balance `b`. -/
def LedgerFlow.Funded (f : LedgerFlow) (d : Bytes) (b : BigInt) : Prop :=
  f.current.Funded d b ∧ ∀ l ∈ f.older, l.Funded d b

section Runs

variable {S : NodeServices} {l l' : Ledger} {t : PoolTransaction} {d : Bytes} {b : BigInt}
  {st st' : BlockState LedgerFlow} {processed : Processed}

/-- Every silenced domain that a turn authenticates is turned away. -/
def SilencedTurnedAway (S : NodeServices) (l : Ledger) (t : PoolTransaction) (keyHeight : UInt64) :
    Prop :=
  ∀ d, S.isSilenced d = true → AuthenticatedBy S l t d → TurnedAway S l t keyHeight d

/-- Another issuer pays for itself alone. -/
theorem funded_of_charged {id : Bytes} {receipt : CReceipt} {receiptID : Bytes}
    {enforceFailure : Bool} {proposal : CBlockProposal}
    (hother : Ledger.addressOf id ≠ Ledger.addressOf d) (hfunded : l.Funded d b)
    (hcharged : LedgerFlow.chargeOver S l t receipt receiptID enforceFailure proposal id =
      .ok (some l')) : l'.Funded d b := by
  obtain ⟨domain, charged, receiptIDs, TXNibbles, -, -, rfl⟩ := LedgerFlow.chargeOver_spec hcharged
  obtain ⟨sd, hsd, hbalance⟩ := hfunded
  refine ⟨sd, ?_, hbalance⟩
  rw [Ledger.findByID, Ledger.save_of_ne _ _ hother.symm]
  exact hsd

/-- A transaction that is processed and kept is not one of a silenced domain that is turned away. -/
theorem confirmed_ne_of_kept {keyHeight : UInt64} {receiptID : Bytes}
    (haway : SilencedTurnedAway S l t keyHeight) (hsilenced : S.isSilenced d = true)
    (hlimit : ¬ t.mErgLimit < S.getMinERGLimit)
    (hprocess : processOver S l t keyHeight receiptID none none false false = .ok processed)
    (hkept : processed.receipt.doNotIncludeInChain = false) :
    processed.confirmedDomainID ≠ Ledger.addressOf d := by
  intro hconfirmed
  rcases processOver_cases hprocess with ⟨hnone, -⟩ | ⟨issuerSD, -, -, hauth, hcarry⟩
  · exact Ledger.addressOf_ne_nil d (hconfirmed.symm.trans hnone)
  obtain ⟨pubKey, hkey, -, hsigned, haddress, -, hid⟩ := authenticate_eq_ok_iff.mp hauth
  have hsilent : AuthenticatedBy S l t d :=
    ⟨pubKey, (resolveKey_eq_ok_iff.mp hkey).1, hsigned, haddress, hid.symm.trans hconfirmed⟩
  obtain ⟨found, hfound, hdiscard, -⟩ :=
    (processOver_turnedAway_iff hsilent hlimit).mpr (haway d hsilenced hsilent)
  obtain rfl := Except.ok.inj (hfound.symm.trans hprocess)
  exact Bool.noConfusion (hkept.symm.trans hdiscard)

/-- The script of another issuer spares the domain. -/
theorem funded_changed {keyHeight : UInt64} {receiptID : Bytes} (hspare : ScriptsSpare S d)
    (hfunded : l.Funded d b)
    (hprocess : processOver S l t keyHeight receiptID none none false false = .ok processed)
    (hother : processed.confirmedDomainID ≠ Ledger.addressOf d) :
    (processed.changed.getD l).Funded d b := by
  rcases processOver_cases hprocess with ⟨-, -, hchanged, -⟩ | ⟨issuerSD, -, -, -, hcarry⟩
  · rw [hchanged]
    exact hfunded
  · generalize hid : processed.confirmedDomainID = confirmedDomainID at hcarry
    rw [hid] at hother
    rcases judgeIssuer_cases (S := S) (t := t) rfl with
      ⟨_, hverdict⟩ | ⟨_, hverdict⟩ | hverdict | hverdict
    all_goals
      rw [hverdict] at hcarry
      cases hcarry
    · exact hfunded
    · exact hfunded
    · exact hfunded
    · exact hspare _ l b hother hfunded

theorem funded_base {keyHeight : UInt64} {receiptID : Bytes} (hspare : ScriptsSpare S d)
    (hfunded : l.Funded d b)
    (hprocess : processOver S l t keyHeight receiptID none none false false = .ok processed)
    (hother : processed.confirmedDomainID ≠ Ledger.addressOf d) :
    (processed.base l).Funded d b := by
  unfold Processed.base
  split_ifs
  · exact hfunded
  · exact funded_changed hspare hfunded hprocess hother

/-- A turn of the first loop leaves the silenced domain its balance. -/
theorem FormationOutcome.funded (hspare : ScriptsSpare S d) (hsilenced : S.isSilenced d = true)
    (haway : SilencedTurnedAway S st.manager.current t st.proposal.keyHeight)
    (hprocesses : Processes S st t processed) {ending : TurnEnd}
    (houtcome : FormationOutcome S st t processed ending st') (hfunded : st.manager.Funded d b) :
    st'.manager.Funded d b := by
  have hother := confirmed_ne_of_kept haway hsilenced hprocesses.limit hprocesses.processes
  cases houtcome with
  | refused hdiscard => exact hfunded
  | unpaid hkept hconfirmed hcharged => exact hfunded
  | unconfirmed hkept hconfirmed hwithin => exact hfunded
  | included hkept hconfirmed hcharged hwithin =>
      have hbase := funded_base hspare hfunded.1 hprocesses.processes (hother hkept)
      have haddress := addressOf_confirmed hprocesses.processes hconfirmed
      exact ⟨funded_of_charged (haddress.symm ▸ hother hkept) hbase hcharged, hfunded.2⟩
  | overflow countOfDomains issuersWithSuccessfulTx hkept hbase hwithin => exact hfunded
  | overflowRolledBack countOfDomains issuersWithSuccessfulTx hkept hconfirmed hcharged hrolled
      hwithin hbelow =>
      exact ⟨hfunded.2 _ (List.mem_of_getLast? hbelow),
        fun l hl => hfunded.2 l (List.mem_of_mem_dropLast hl)⟩

/-- A turn of the second loop leaves it too. -/
theorem retryOutcome_funded (hspare : ScriptsSpare S d) (hsilenced : S.isSilenced d = true)
    (haway : SilencedTurnedAway S st.manager.current t st.proposal.keyHeight)
    (hprocesses : Processes S st t processed)
    (houtcome : (processed.receipt.doNotIncludeInChain = true ∨ processed.confirmedDomainID = []) ∧
        st' = st ∨
      processed.receipt.doNotIncludeInChain = false ∧ processed.confirmedDomainID ≠ [] ∧
        st' = retriedState st t processed) (hfunded : st.manager.Funded d b) :
    st'.manager.Funded d b := by
  rcases houtcome with ⟨-, rfl⟩ | ⟨hkept, -, rfl⟩
  · exact hfunded
  · have hother := confirmed_ne_of_kept haway hsilenced hprocesses.limit hprocesses.processes hkept
    exact ⟨funded_changed hspare hfunded.1 hprocesses.processes hother, hfunded.2⟩

end Runs

/-! ### Runs -/

section Blocks

variable {S : NodeServices} {DB : Type} {T : LedgerTrie DB} {d : Bytes} {b : BigInt}

/-- The flow of a manager leaves the domain at least the balance `b`, whatever is taken back. -/
def TransactionManager.Funded (T : LedgerTrie DB) (m : TransactionManager DB) (d : Bytes)
    (b : BigInt) : Prop :=
  (m.ledger T).Funded d b ∧ ∀ db ∈ m.mInFlowInterDBs, (T.domains db).Funded d b

/-- In every turn of the block, a silenced domain that it authenticates is turned away. -/
def FormedBlock.Silences (block : FormedBlock S T) : Prop :=
  ∀ turn ∈ block.turns ++ block.retries,
    SilencedTurnedAway S (turn.before.manager.ledger T) turn.transaction
      turn.before.proposal.keyHeight

theorem funded_iff_of_holds {m : TransactionManager DB} {f : LedgerFlow} (hholds : m.Holds T f) :
    m.Funded T d b ↔ f.Funded d b := by
  unfold TransactionManager.Funded LedgerFlow.Funded
  rw [hholds.current, ← hholds.older, List.forall_mem_map]

/-- Where silenced domains are turned away, no call that forms a block lowers the balance of one. -/
theorem FormedBlock.funded (hT : T.Documented) (hspare : ScriptsSpare S d)
    (hsilenced : S.isSilenced d = true) (block : FormedBlock S T) (hsilences : block.Silences)
    (hfunded : block.start.manager.Funded T d b) : block.finish.manager.Funded T d b := by
  by_cases hne : block.transactions = []
  · rw [(block.finish_of_empty hne).1]
    exact hfunded
  have hkeeps := (block.linked hT hne).1.keeps
    (I := fun st => FormedBlock.Ongoing T st ∧ st.manager.Funded T d b)
    ⟨block.start_ongoing, hfunded⟩ ?_
  · exact hkeeps.1.2
  rintro turn hmem ⟨hongoing, hfunded⟩
  refine ⟨block.ongoing hT hmem hongoing, ?_⟩
  obtain ⟨hckpt, f, hholds⟩ := hongoing
  have haway := hsilences turn hmem
  rw [hholds.current] at haway
  rw [funded_iff_of_holds hholds] at hfunded
  rcases List.mem_append.mp hmem with hmain | hretry
  · obtain ⟨processed, sf, hprocesses, -, houtcome, -, hholds'⟩ :=
      block.formationTurn hT hmain f hholds hckpt
    rw [funded_iff_of_holds hholds']
    exact houtcome.funded hspare hsilenced haway hprocesses hfunded
  · obtain ⟨processed, sf, hprocesses, houtcome, -, hholds'⟩ :=
      block.retryTurn hT hretry f hholds
    rw [funded_iff_of_holds hholds']
    exact retryOutcome_funded hspare hsilenced haway hprocesses houtcome hfunded

/-- What comes between two calls takes nothing from the domain. -/
def Spares (d : Bytes) (block block' : FormedBlock S T) : Prop :=
  ∀ b, block.finish.manager.Funded T d b → block'.start.manager.Funded T d b

/-- Exactly where the silenced domains that it authenticates are turned away, a new transaction cannot
act for one; and over any sequence of calls in whose turns they are turned away, no balance of a
silenced domain falls. -/
theorem silenced_cannotAct_iff (hT : T.Documented) :
    (∀ (m : TransactionManager DB) (t : PoolTransaction) (keyHeight : UInt64) (receiptID : Bytes)
      (excuseERGusage : Bool), m.WellFormed T.toTrieDB → 2 ≤ m.mAllowedInterFlowSteps →
      ((∀ d, S.isSilenced d = true → AuthenticatedBy S (m.ledger T) t d →
        CannotAct S T m t keyHeight receiptID excuseERGusage) ↔
          SilencedTurnedAway S (m.ledger T) t keyHeight)) ∧
    ∀ d b (first : FormedBlock S T) (blocks : List (FormedBlock S T)), S.isSilenced d = true →
      ScriptsSpare S d → (first :: blocks).IsChain (Spares d) →
      (∀ block ∈ first :: blocks, block.Silences) → first.start.manager.Funded T d b →
        ∀ block ∈ first :: blocks, block.finish.manager.Funded T d b := by
  constructor
  · intro m t keyHeight receiptID excuseERGusage hm htwo
    constructor
    · intro hcannot d hsilenced hauth
      exact (cannotAct_iff hT hm htwo hauth).mp (hcannot d hsilenced hauth)
    · intro haway d hsilenced hauth
      exact (cannotAct_iff hT hm htwo hauth).mpr (haway d hsilenced hauth)
  · intro d b first blocks hsilenced hspare hchain hsilences hfunded
    induction blocks generalizing first with
    | nil =>
        intro block hmem
        obtain rfl := List.mem_singleton.mp hmem
        exact block.funded hT hspare hsilenced (hsilences block List.mem_cons_self) hfunded
    | cons next blocks ih =>
        obtain ⟨hbetween, hrest⟩ := List.isChain_cons_cons.mp hchain
        have hfirst := first.funded hT hspare hsilenced (hsilences first List.mem_cons_self) hfunded
        have hlater := ih next hrest (fun x hx => hsilences x (List.mem_cons_of_mem _ hx))
          (hbetween b hfirst)
        intro block hmem
        rcases List.mem_cons.mp hmem with rfl | hmem
        · exact hfirst
        · exact hlater block hmem

end Blocks

section Samples

/-- The second owner, whose domain is silenced, names its domain instead of its key. -/
def silencedByName : PoolTransaction :=
  { sampleTransaction 2 with mPubKey := [], mIssuer := sampleAddress 2 }

theorem silencedByName_turnedAway (l : Ledger) (keyHeight : UInt64) :
    SilencedTurnedAway sampleServices l silencedByName keyHeight := fun _ _ _ =>
  ⟨by decide, fun hkey => absurd rfl hkey, Or.inl ⟨by decide, by decide, by decide +kernel⟩⟩

/-- Named instead of known by its key, the silenced owner cannot act, and keeps its 500. -/
theorem sample_silenced :
    CannotAct sampleServices sampleTrie sampleFlow silencedByName 1 (sampleKey 9) false ∧
      ∃ block : FormedBlock sampleServices sampleTrie, block.transactions = [silencedByName] ∧
        block.finish.manager.Funded sampleTrie (sampleAddress 2) 500 := by
  obtain ⟨hstep, hrun⟩ := silenced_cannotAct_iff (S := sampleServices) sampleTrie_documented
  constructor
  · refine (hstep sampleFlow silencedByName 1 (sampleKey 9) false sampleFlow_wellFormed
      (by decide)).mpr (silencedByName_turnedAway _ _) (sampleAddress 2) (by decide +kernel) ?_
    exact ⟨sampleKey 2, by decide +kernel, by decide +kernel, by decide, rfl⟩
  · obtain ⟨block, -, -, hts, hunprocessed, hstart⟩ := formedBlock_exists [silencedByName] []
      (by decide +kernel)
    have hsilences : ∀ block' ∈ [block], block'.Silences := by
      intro block' hmem turn hturn
      obtain rfl := List.mem_singleton.mp hmem
      have htransaction : turn.transaction = silencedByName := by
        rcases List.mem_append.mp hturn with hmain | hretry
        · have hlisted := (mainTurns_sublist _).subset (List.mem_map_of_mem hmain)
          rw [hts] at hlisted
          exact List.mem_singleton.mp hlisted
        · have hlisted := retryTurns_mem hretry
          rw [hunprocessed] at hlisted
          cases hlisted
      rw [htransaction]
      exact silencedByName_turnedAway _ _
    have hfunded : block.start.manager.Funded sampleTrie (sampleAddress 2) 500 := by
      rw [hstart]
      have hledger : sampleLedger.Funded (sampleAddress 2) 500 := ⟨_, rfl, by decide⟩
      refine ⟨hledger, fun db hdb => ?_⟩
      obtain rfl := List.mem_singleton.mp hdb
      exact hledger
    exact ⟨block, hts, hrun (sampleAddress 2) 500 block [] (by decide +kernel)
      (fun _ _ _ _ h => h) (List.isChain_singleton block) hsilences hfunded block
      List.mem_cons_self⟩

/-- With its key the silenced owner acts. -/
theorem silenced_owner_acts :
    sampleServices.isSilenced (sampleAddress 2) = true ∧
      AuthenticatedBy sampleServices sampleLedger (sampleTransaction 2) (sampleAddress 2) ∧
      ¬ CannotAct sampleServices sampleTrie sampleFlow (sampleTransaction 2) 1 (sampleKey 9)
        false := by
  have hauth : AuthenticatedBy sampleServices sampleLedger (sampleTransaction 2)
      (sampleAddress 2) := ⟨sampleKey 2, by decide +kernel, by decide +kernel, by decide, rfl⟩
  refine ⟨by decide +kernel, hauth, fun hcannot => ?_⟩
  have haway := (cannotAct_iff sampleTrie_documented sampleFlow_wellFormed (by decide) hauth).mp
    hcannot
  rcases haway.refused with ⟨hlength, -⟩ | hdomain
  · exact hlength rfl
  · exact hdomain
      { assetType := .BigInt, assetValue := 500, IDToken := some (sampleKey 2) } rfl
      ⟨by decide, by decide, by decide, by decide⟩

end Samples

end Gridnet
