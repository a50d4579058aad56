import Gridnet.PreValidation

/-! What the verdict on a transaction implies for the result of processing it. -/

namespace Gridnet

section Verdicts

variable {S : NodeServices} {l : Ledger} {t : PoolTransaction} {keyHeight : UInt64}
  {receiptID : Bytes} {existingReceipt : Option CReceipt} {existingBlock : Option CBlockProposal}
  {excuseERGusage enforceFailure : Bool} {processed : Processed}

theorem identityTokenKey_ne_valid {t : CTransaction} :
    identityTokenKey l t ≠ .error .valid := by
  unfold identityTokenKey
  split
  · nofun
  split
  · nofun
  · split_ifs <;> nofun

theorem resolveKey_ne_valid {inBlock : Bool} : resolveKey S l t inBlock ≠ .error .valid := by
  unfold resolveKey
  split_ifs
  · nofun
  · nofun
  · nofun
  · exact identityTokenKey_ne_valid

/-- No way to miss the issuer answers `valid`. -/
theorem authenticate_ne_valid {inBlock : Bool} : authenticate S l t inBlock ≠ .error .valid := by
  unfold authenticate
  cases hkey : resolveKey S l t inBlock with
  | error result =>
      intro h
      obtain rfl := Except.error.inj h
      exact resolveKey_ne_valid hkey
  | ok pubKey =>
      dsimp only
      split_ifs
      · nofun
      · nofun
      · nofun
      · split <;> nofun

theorem issuerStartsWithAddress_of_match  (hmatch : keyMatchesIssuer S t = .ok true) : IssuerStartsWithAddress S t := by
  by_cases hreaches : IssuerReaches S t
  · obtain ⟨matching, heq, hstarts⟩ := keyMatchesIssuer_eq hreaches
    exact hstarts.mp (Except.ok.inj (heq.symm.trans hmatch))
  · rw [keyMatchesIssuer_eq_error hreaches] at hmatch
    cases hmatch

/-- A verdict is that of an authenticated issuer, or a refusal without a domain. -/
theorem judge_cases {verdict : Verdict}
    (hjudge : judge S l t keyHeight existingReceipt existingBlock enforceFailure = .ok verdict) :
    (∃ result doNotInclude, result ≠ .valid ∧ verdict = .refused result doNotInclude []) ∨
      ∃ confirmedDomainID issuerSD, keyMatchesIssuer S t = .ok true ∧
        authenticate S l t existingBlock.isSome = .ok (confirmedDomainID, issuerSD) ∧
        verdict = judgeIssuer S t keyHeight (nonceExcused existingReceipt existingBlock)
          enforceFailure confirmedDomainID issuerSD := by
  unfold judge at hjudge
  split at hjudge
  · cases hjudge
  · obtain rfl := Except.ok.inj hjudge
    exact Or.inl ⟨.pubNotMatch, false, nofun, rfl⟩
  · rename_i hmatch
    split at hjudge
    · rename_i result hauth
      obtain rfl := Except.ok.inj hjudge
      refine Or.inl ⟨_, _, ?_, rfl⟩
      rintro rfl
      exact authenticate_ne_valid hauth
    · rename_i confirmedDomainID issuerSD hauth
      exact Or.inr ⟨_, _, hmatch, hauth, (Except.ok.inj hjudge).symm⟩

theorem authenticate_ne_nil {inBlock : Bool} {confirmedDomainID : Bytes} {issuerSD : StateDomain}
    (hauth : authenticate S l t inBlock = .ok (confirmedDomainID, issuerSD)) :
    confirmedDomainID ≠ [] := by
  obtain ⟨pubKey, -, -, -, -, -, rfl⟩ := authenticate_eq_ok_iff.mp hauth
  exact Ledger.addressOf_ne_nil _

/-- The domain that the verdict on an issuer confirms is the issuer's. -/
theorem confirmed_of_judgeIssuer {excused : Bool} {confirmedDomainID : Bytes}
    {issuerSD : StateDomain}
    (hcarry : carryOut S l t keyHeight receiptID existingReceipt existingBlock excuseERGusage
      (judgeIssuer S t keyHeight excused enforceFailure confirmedDomainID issuerSD) =
        .ok processed) : processed.confirmedDomainID = confirmedDomainID := by
  unfold judgeIssuer at hcarry
  split_ifs at hcarry
  · obtain rfl := Except.ok.inj hcarry
    rfl
  · unfold carryOut at hcarry
    dsimp only at hcarry
    split at hcarry
    · cases hcarry
    · cases hcarry
    · obtain rfl := Except.ok.inj hcarry
      rfl
  all_goals
    obtain rfl := Except.ok.inj hcarry
    rfl

/-- A transaction without a confirmed domain is not valid and changes nothing; with one, its issuer was
authenticated. -/
theorem processOver_cases
    (hprocess : processOver S l t keyHeight receiptID existingReceipt existingBlock excuseERGusage
      enforceFailure = .ok processed) :
    (processed.confirmedDomainID = [] ∧ processed.receipt.mResult ≠ .valid ∧
        processed.changed = none ∧ processed.scriptCall = none) ∨
      ∃ issuerSD, processed.confirmedDomainID ≠ [] ∧ keyMatchesIssuer S t = .ok true ∧
        authenticate S l t existingBlock.isSome = .ok (processed.confirmedDomainID, issuerSD) ∧
        carryOut S l t keyHeight receiptID existingReceipt existingBlock excuseERGusage
          (judgeIssuer S t keyHeight (nonceExcused existingReceipt existingBlock) enforceFailure
            processed.confirmedDomainID issuerSD) = .ok processed := by
  unfold processOver at hprocess
  cases hjudge : judge S l t keyHeight existingReceipt existingBlock enforceFailure with
  | error e =>
      rw [hjudge] at hprocess
      cases hprocess
  | ok verdict =>
      rw [hjudge] at hprocess
      dsimp only at hprocess
      rcases judge_cases hjudge with
        ⟨result, doNotInclude, hresult, rfl⟩ | ⟨confirmedDomainID, issuerSD, hmatch, hauth, rfl⟩
      · obtain rfl := Except.ok.inj hprocess
        exact Or.inl ⟨rfl, hresult, rfl, rfl⟩
      · have hconfirmed := confirmed_of_judgeIssuer hprocess
        subst hconfirmed
        exact Or.inr ⟨issuerSD, authenticate_ne_nil hauth, hmatch, hauth, hprocess⟩

/-- The verdicts on an authenticated issuer, where no failure is enforced. -/
theorem judgeIssuer_cases {excused : Bool} {confirmedDomainID : Bytes} {issuerSD : StateDomain}
    {verdict : Verdict}
    (hverdict : judgeIssuer S t keyHeight excused false confirmedDomainID issuerSD = verdict) :
    (∃ deferred, verdict = .untimely deferred confirmedDomainID) ∨
      (∃ result, verdict = .refused result true confirmedDomainID) ∨
      verdict = .invalidSacrifice confirmedDomainID ∨ verdict = .execute confirmedDomainID := by
  unfold judgeIssuer at hverdict
  rw [if_neg (c := false = true) Bool.false_ne_true] at hverdict
  split_ifs at hverdict
  · exact Or.inl ⟨_, hverdict.symm⟩
  · exact Or.inr (Or.inl ⟨_, hverdict.symm⟩)
  · exact Or.inr (Or.inl ⟨_, hverdict.symm⟩)
  · exact Or.inr (Or.inl ⟨_, hverdict.symm⟩)
  · exact Or.inr (Or.inr (Or.inl hverdict.symm))
  · exact Or.inr (Or.inr (Or.inr hverdict.symm))

/-- Domains change only through the script. -/
theorem changed_of_judgeIssuer {excused : Bool} {confirmedDomainID : Bytes}
    {issuerSD : StateDomain}
    (hcarry : carryOut S l t keyHeight receiptID existingReceipt existingBlock excuseERGusage
      (judgeIssuer S t keyHeight excused false confirmedDomainID issuerSD) = .ok processed) :
    processed.changed = none ∨ ∃ call, processed.changed = some (S.processScript call l).2 := by
  rcases judgeIssuer_cases (S := S) (t := t) rfl with ⟨_, hverdict⟩ | ⟨_, hverdict⟩ | hverdict | hverdict
  all_goals
    rw [hverdict] at hcarry
    cases hcarry
  · exact Or.inl rfl
  · exact Or.inl rfl
  · exact Or.inl rfl
  · exact Or.inr ⟨_, rfl⟩

/-- A key that is not the issuer's. -/
theorem processOver_mismatch (hmismatch : keyMatchesIssuer S t = .ok false) :
    processOver S l t keyHeight receiptID existingReceipt existingBlock excuseERGusage
        enforceFailure =
      .ok { receipt := preliminaryReceipt S t receiptID .pubNotMatch false, transaction := t } := by
  unfold processOver judge
  rw [hmismatch]
  rfl

/-- Without a confirmed domain only a key that is not the issuer's is not left out. -/
theorem mismatch_of_unconfirmed
    (hprocess : processOver S l t keyHeight receiptID existingReceipt existingBlock excuseERGusage
      enforceFailure = .ok processed) (hkept : processed.receipt.doNotIncludeInChain = false)
    (hnone : processed.confirmedDomainID = []) : keyMatchesIssuer S t = .ok false := by
  have hauthenticated := processOver_cases hprocess
  unfold processOver judge at hprocess
  cases hmatch : keyMatchesIssuer S t with
  | error e =>
      rw [hmatch] at hprocess
      cases hprocess
  | ok matching =>
      cases matching with
      | false => rfl
      | true =>
          rw [hmatch] at hprocess
          cases hauth : authenticate S l t existingBlock.isSome with
          | error result =>
              rw [hauth] at hprocess
              cases hprocess
              cases hkept
          | ok issuer =>
              rcases hauthenticated with ⟨-, -, -, -⟩ | ⟨issuerSD, hsome, -⟩
              · rw [hauth] at hprocess
                obtain ⟨confirmedDomainID, issuerSD⟩ := issuer
                have hid := confirmed_of_judgeIssuer hprocess
                exact absurd (hid.symm.trans hnone) (authenticate_ne_nil hauth)
              · exact absurd hnone hsome

/-- A confirmed domain is filled up to the length of an address. -/
theorem addressOf_confirmed (hprocess : processOver S l t keyHeight receiptID existingReceipt
      existingBlock excuseERGusage enforceFailure = .ok processed)
    (hconfirmed : processed.confirmedDomainID ≠ []) :
    Ledger.addressOf processed.confirmedDomainID = processed.confirmedDomainID := by
  rcases processOver_cases hprocess with ⟨hnone, -⟩ | ⟨issuerSD, -, -, hauth, -⟩
  · exact absurd hnone hconfirmed
  · obtain ⟨pubKey, -, -, -, -, -, hid⟩ := authenticate_eq_ok_iff.mp hauth
    rw [hid, Ledger.addressOf_addressOf]

/-- Without the script, nothing changes. -/
theorem changed_eq_none (hprocess : processOver S l t keyHeight receiptID existingReceipt existingBlock
    excuseERGusage false = .ok processed) (hscript : processed.scriptCall = none) :
    processed.changed = none := by
  rcases processOver_cases hprocess with ⟨-, -, hchanged, -⟩ | ⟨issuerSD, -, -, -, hcarry⟩
  · exact hchanged
  · generalize processed.confirmedDomainID = confirmedDomainID at hcarry
    rcases judgeIssuer_cases (S := S) (t := t) rfl with
      ⟨_, hverdict⟩ | ⟨_, hverdict⟩ | hverdict | hverdict
    all_goals
      rw [hverdict] at hcarry
      cases hcarry
    · rfl
    · rfl
    · rfl
    · cases hscript

/-- A transaction of an authenticated issuer whose receipt names it, and is not to be left out, was
executed. -/
theorem execute_of_kept {excused : Bool} {confirmedDomainID : Bytes} {issuerSD : StateDomain}
    (hcarry : carryOut S l t keyHeight receiptID existingReceipt existingBlock excuseERGusage
      (judgeIssuer S t keyHeight excused false confirmedDomainID issuerSD) = .ok processed)
    (hkept : processed.receipt.doNotIncludeInChain = false)
    (hid : processed.receipt.mVerifiableID ≠ []) :
    judgeIssuer S t keyHeight excused false confirmedDomainID issuerSD =
      .execute confirmedDomainID := by
  rcases judgeIssuer_cases (S := S) (t := t) rfl with ⟨_, hverdict⟩ | ⟨_, hverdict⟩ | hverdict | hverdict
  · rw [hverdict] at hcarry
    cases hcarry
    cases hkept
  · rw [hverdict] at hcarry
    cases hcarry
    cases hkept
  · rw [hverdict] at hcarry
    cases hcarry
    exact absurd rfl hid
  · exact hverdict

theorem nonceExcused_of_not_checkpointed {receipt : Option CReceipt} {block : CBlockProposal}
    (hckpt : block.isCheckpointed = false) : nonceExcused receipt (some block) = false := by
  unfold nonceExcused
  cases receipt with
  | none => rfl
  | some receipt =>
      dsimp only
      rw [hckpt, decide_eq_false]
      exact fun h => Bool.false_ne_true h.1

/-- Processing changes only the marks of a transaction. -/
theorem processOver_toCTransaction
    (hprocess : processOver S l t keyHeight receiptID existingReceipt existingBlock excuseERGusage
      enforceFailure = .ok processed) : processed.transaction.toCTransaction = t.toCTransaction := by
  unfold processOver at hprocess
  split at hprocess
  · cases hprocess
  rename_i verdict hjudge
  cases verdict with
  | refused result doNotInclude confirmedDomainID =>
      cases hprocess
      rfl
  | untimely deferred confirmedDomainID =>
      cases hprocess
      cases deferred <;> rfl
  | failureEnforced confirmedDomainID =>
      dsimp only [carryOut] at hprocess
      split at hprocess
      · cases hprocess
      · cases hprocess
      · cases hprocess
        rfl
  | invalidSacrifice confirmedDomainID =>
      cases hprocess
      rfl
  | execute confirmedDomainID =>
      cases hprocess
      rfl

/-- The receipt of a new transaction names it, unless it is one of an ill-formed sacrifice. -/
theorem processOver_mVerifiableID
    (hprocess : processOver S l t keyHeight receiptID none existingBlock excuseERGusage
      enforceFailure = .ok processed) :
    processed.receipt.mVerifiableID = S.getHash t.toCTransaction ∨
      processed.receipt.mVerifiableID = [] := by
  unfold processOver at hprocess
  split at hprocess
  · cases hprocess
  rename_i verdict hjudge
  cases verdict with
  | refused result doNotInclude confirmedDomainID =>
      cases hprocess
      exact Or.inl rfl
  | untimely deferred confirmedDomainID =>
      cases hprocess
      exact Or.inl rfl
  | failureEnforced confirmedDomainID =>
      dsimp only [carryOut] at hprocess
      split at hprocess <;> rename_i heq
      · cases hprocess
      · cases hprocess
      · cases heq
  | invalidSacrifice confirmedDomainID =>
      cases hprocess
      exact Or.inr rfl
  | execute confirmedDomainID =>
      cases hprocess
      exact Or.inl rfl

theorem memcmpEq_ne_false (hprocess : processOver S l t keyHeight receiptID none existingBlock
      excuseERGusage enforceFailure = .ok processed) :
    memcmpEq processed.receipt.mVerifiableID (S.getHash t.toCTransaction) 32 ≠ .ok false := by
  unfold memcmpEq
  rcases processOver_mVerifiableID hprocess with hid | hid
  · rw [hid]
    split_ifs
    · nofun
    · rw [decide_eq_true rfl]
      nofun
  · rw [hid, if_pos (Or.inl (by decide))]
    nofun

end Verdicts

end Gridnet
