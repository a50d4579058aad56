import Gridnet.TransactionProcessing

/-! Whether `preValidateTransaction` predicts `processTransaction`. Both are brought down to the checks
that they share, and what is left over on either side is the difference between them. -/

namespace Gridnet

section Shared

variable (S : NodeServices) (l : Ledger) (t : PoolTransaction) (keyHeight : UInt64)

/-- What both check of a public key and the domain of its address. -/
structure Payable (pubKey : Bytes) (issuerSD : StateDomain) : Prop where
  length : pubKey.length = 32
  signed : t.verifySignature S pubKey = true
  address : (S.genAddress pubKey).1 = true
  domain : l.findByID (S.genAddress pubKey).2 = some issuerSD
  price : ¬ (t.mErgPrice = 0 ∨ t.mErgPrice < S.getMinNodeERGPrice keyHeight)
  covered : ¬ issuerSD.getBalance < t.mErgLimit * t.mErgPrice

/-- The key that processing authenticates with: the explicit one of 32 bytes, or that of the token. -/
def keyOf : Option Bytes :=
  if t.mPubKey.length = 32 then some t.mPubKey
  else if t.mIssuer = [] then none
  else (identityTokenKey l t.toCTransaction).toOption

/-- The issuer is named in the transaction, and is one of the silenced domains. -/
def IssuerSilenced : Prop := t.mIssuer ≠ [] ∧ S.isSilenced t.mIssuer = true

/-- The issuer that is given starts with the address of the key that is given. -/
def IssuerStartsWithAddress : Prop :=
  t.mPubKey ≠ [] → t.mIssuer ≠ [] →
    (S.genAddress t.mPubKey).2.length ≤ t.mIssuer.length ∧
      t.mIssuer.take (S.genAddress t.mPubKey).2.length = (S.genAddress t.mPubKey).2

/-- A key is left out or has 32 bytes, and its address is the issuer, where both are given. -/
structure KeyWellFormed : Prop where
  length : t.mPubKey = [] ∨ t.mPubKey.length = 32
  issuer : t.mPubKey ≠ [] → t.mIssuer ≠ [] →
    (S.genAddress t.mPubKey).1 = true ∧ (S.genAddress t.mPubKey).2 = t.mIssuer

/-- A transaction that is marked as a sacrifice has the form of one. -/
def SacrificeWellFormed : Prop :=
  ¬ (t.isASacrifice = true ∧ S.verifySacrificialTransactionSemantics t.toCTransaction = false)

variable {S l t keyHeight}

theorem identityTokenKey_length {pubKey : Bytes}
    (hkey : identityTokenKey l t.toCTransaction = .ok pubKey) : pubKey.length = 32 := by
  unfold identityTokenKey at hkey
  split at hkey
  · cases hkey
  split at hkey
  · cases hkey
  split_ifs at hkey with hlength
  obtain rfl := Except.ok.inj hkey
  exact Decidable.not_not.mp hlength

theorem toOption_eq_some {α ε : Type} {x : Except ε α} {a : α} : x.toOption = some a ↔ x = .ok a := by
  cases x with
  | error e => exact ⟨nofun, nofun⟩
  | ok b => exact ⟨fun h => congrArg _ (Option.some.inj h), fun h => congrArg _ (Except.ok.inj h)⟩

theorem keyOf_length {pubKey : Bytes} (hkey : keyOf l t = some pubKey) : pubKey.length = 32 := by
  unfold keyOf at hkey
  split_ifs at hkey with hexplicit hissuer
  · rwa [← Option.some.inj hkey]
  · exact identityTokenKey_length (toOption_eq_some.mp hkey)

/-! ### Pre-validation -/

/-- The steps behind the key succeed for a payable key and a nonce above the issuer's. -/
theorem preValidateIssuer_eq_valid_iff {pubKey : Bytes} :
    preValidateIssuer S l t.toCTransaction keyHeight none pubKey = .valid ↔
      ∃ issuerSD, Payable S l t keyHeight pubKey issuerSD ∧ issuerSD.mNonce < t.mNonce := by
  constructor
  · intro hvalid
    unfold preValidateIssuer at hvalid
    cases hdomain : l.findByID (S.genAddress pubKey).2 with
    | none =>
        rw [hdomain] at hvalid
        dsimp only at hvalid
        split_ifs at hvalid
    | some issuerSD =>
        rw [hdomain] at hvalid
        dsimp only at hvalid
        split_ifs at hvalid with hlength hsigned haddress hprice hcovered hnonce
        exact ⟨issuerSD,
          ⟨Decidable.not_not.mp hlength, Bool.eq_true_of_not_eq_false hsigned,
            Bool.eq_true_of_not_eq_false haddress, hdomain, hprice, hcovered⟩,
          UInt64.not_le.mp hnonce⟩
  · rintro ⟨issuerSD, hpayable, hnonce⟩
    unfold preValidateIssuer
    rw [if_neg (not_not_intro hpayable.length), if_neg (by rw [hpayable.signed]; decide),
      if_neg (by rw [hpayable.address]; decide), hpayable.domain]
    dsimp only
    rw [if_neg hpayable.price, if_neg hpayable.covered, if_neg (UInt64.not_le.mpr hnonce)]

/-- A key that pre-validation finds and that has 32 bytes comes from a well-formed transaction, and is
the key that processing finds. -/
theorem preValidateKey_eq_ok_iff {pubKey : Bytes} (hlength : pubKey.length = 32) :
    preValidateKey S l t.toCTransaction = .ok pubKey ↔
      KeyWellFormed S t ∧ keyOf l t = some pubKey := by
  unfold preValidateKey keyOf
  by_cases hkey : t.mPubKey = []
  · have hempty : ¬ ([] : Bytes).length = 32 := by decide
    have hwell : KeyWellFormed S t := ⟨Or.inl hkey, fun hne => absurd hkey hne⟩
    rw [hkey, if_pos rfl, if_neg hempty]
    by_cases hissuer : t.mIssuer = []
    · rw [if_pos hissuer, if_pos hissuer]
      exact ⟨nofun, fun h => nomatch h.2⟩
    · rw [if_neg hissuer, if_neg hissuer, toOption_eq_some]
      exact ⟨fun h => ⟨hwell, h⟩, And.right⟩
  rw [if_neg hkey]
  constructor
  · intro hok
    split_ifs at hok with hissuer haddress hmatch
    · obtain rfl : t.mPubKey = pubKey := Except.ok.inj hok
      rw [if_pos hlength]
      exact ⟨⟨Or.inr hlength, fun _ hne => absurd hissuer hne⟩, rfl⟩
    · obtain rfl : t.mPubKey = pubKey := Except.ok.inj hok
      rw [if_pos hlength]
      exact ⟨⟨Or.inr hlength, fun _ _ =>
        ⟨Bool.eq_true_of_not_eq_false haddress, Decidable.not_not.mp hmatch⟩⟩, rfl⟩
  · rintro ⟨hwell, hfound⟩
    rw [if_pos (hwell.length.resolve_left hkey)] at hfound
    by_cases hissuer : t.mIssuer = []
    · rw [if_pos hissuer, Option.some.inj hfound]
    · obtain ⟨haddress, hmatch⟩ := hwell.issuer hkey hissuer
      rw [if_neg hissuer, if_neg (by rw [haddress]; decide), if_neg (not_not_intro hmatch),
        Option.some.inj hfound]

theorem preValidateTransaction_eq_valid_iff :
    preValidateTransaction S l t.toCTransaction keyHeight none = .valid ↔
      decompilable S t.toCTransaction = true ∧ KeyWellFormed S t ∧ ∃ pubKey issuerSD,
        keyOf l t = some pubKey ∧ Payable S l t keyHeight pubKey issuerSD ∧
          issuerSD.mNonce < t.mNonce := by
  unfold preValidateTransaction
  constructor
  · intro hvalid
    split_ifs at hvalid with hcode
    cases hkey : preValidateKey S l t.toCTransaction with
    | error result =>
        -- no way to miss the key answers `valid`
        exfalso
        rw [hkey] at hvalid
        dsimp only at hvalid
        subst hvalid
        unfold preValidateKey identityTokenKey at hkey
        split_ifs at hkey <;> try cases hkey
        split at hkey
        · cases hkey
        split at hkey
        · cases hkey
        split_ifs at hkey
        cases hkey
    | ok pubKey =>
        rw [hkey] at hvalid
        obtain ⟨issuerSD, hpayable, hnonce⟩ := preValidateIssuer_eq_valid_iff.mp hvalid
        obtain ⟨hwell, hfound⟩ := (preValidateKey_eq_ok_iff hpayable.length).mp hkey
        exact ⟨Bool.eq_true_of_not_eq_false hcode, hwell, pubKey, issuerSD, hfound, hpayable,
          hnonce⟩
  · rintro ⟨hcode, hwell, pubKey, issuerSD, hfound, hpayable, hnonce⟩
    rw [if_neg (by rw [hcode]; decide),
      (preValidateKey_eq_ok_iff (S := S) hpayable.length).mpr ⟨hwell, hfound⟩]
    exact preValidateIssuer_eq_valid_iff.mpr ⟨issuerSD, hpayable, hnonce⟩

/-! ### Processing -/

/-- What the verdict adds to a payable key: the nonce that comes next, and some balance. -/
structure Chargeable (S : NodeServices) (l : Ledger) (t : PoolTransaction) (keyHeight : UInt64)
    (pubKey : Bytes) (issuerSD : StateDomain) : Prop
    extends Payable S l t keyHeight pubKey issuerSD where
  nonce : issuerSD.mNonce + 1 = t.mNonce
  funded : issuerSD.getBalance ≠ 0

/-- The comparison of key and issuer reads no further than the issuer reaches. -/
def IssuerReaches (S : NodeServices) (t : PoolTransaction) : Prop :=
  t.mPubKey ≠ [] → t.mIssuer ≠ [] → (S.genAddress t.mPubKey).2.length ≤ t.mIssuer.length

theorem keyMatchesIssuer_eq (hreaches : IssuerReaches S t) :
    ∃ matching, keyMatchesIssuer S t = .ok matching ∧
      (matching = true ↔ IssuerStartsWithAddress S t) := by
  unfold keyMatchesIssuer
  by_cases hboth : t.mPubKey ≠ [] ∧ t.mIssuer ≠ []
  · have hlength := hreaches hboth.1 hboth.2
    rw [if_pos hboth, memcmpEq, if_neg (by omega), List.take_length]
    refine ⟨_, rfl, ?_⟩
    rw [decide_eq_true_iff]
    exact ⟨fun h _ _ => ⟨hlength, h.symm⟩, fun h => (h hboth.1 hboth.2).2.symm⟩
  · rw [if_neg hboth]
    exact ⟨true, rfl, fun _ hkey hissuer => absurd ⟨hkey, hissuer⟩ hboth, fun _ => rfl⟩

theorem keyMatchesIssuer_eq_error (hreaches : ¬ IssuerReaches S t) :
    keyMatchesIssuer S t = .error .outOfRange := by
  unfold IssuerReaches at hreaches
  push Not at hreaches
  obtain ⟨hkey, hissuer, hlength⟩ := hreaches
  rw [keyMatchesIssuer, if_pos ⟨hkey, hissuer⟩, memcmpEq, if_pos (Or.inr hlength)]

theorem resolveKey_eq_ok_iff {pubKey : Bytes} {inBlock : Bool} :
    resolveKey S l t inBlock = .ok pubKey ↔
      keyOf l t = some pubKey ∧
        (t.mPubKey.length = 32 ∨ inBlock = true ∨ ¬ IssuerSilenced S t) := by
  unfold resolveKey keyOf
  by_cases hexplicit : t.mPubKey.length = 32
  · rw [if_pos hexplicit, if_pos hexplicit]
    exact ⟨fun h => ⟨congrArg _ (Except.ok.inj h), Or.inl hexplicit⟩,
      fun h => congrArg _ (Option.some.inj h.1)⟩
  rw [if_neg hexplicit, if_neg hexplicit]
  by_cases hissuer : t.mIssuer = []
  · rw [if_pos hissuer, if_pos hissuer]
    exact ⟨nofun, fun h => nomatch h.1⟩
  rw [if_neg hissuer, if_neg hissuer]
  by_cases hsilenced : inBlock = false ∧ S.isSilenced t.mIssuer = true
  · rw [if_pos hsilenced]
    refine ⟨nofun, fun h => ?_⟩
    rcases h.2 with hlength | hblock | hfree
    · exact absurd hlength hexplicit
    · rw [hsilenced.1] at hblock
      cases hblock
    · exact absurd ⟨hissuer, hsilenced.2⟩ hfree
  · rw [if_neg hsilenced, toOption_eq_some]
    refine ⟨fun h => ⟨h, Or.inr ?_⟩, And.left⟩
    cases inBlock with
    | true => exact Or.inl rfl
    | false => exact Or.inr fun h => hsilenced ⟨rfl, h.2⟩

theorem authenticate_eq_ok_iff {confirmedDomainID : Bytes} {issuerSD : StateDomain}
    {inBlock : Bool} :
    authenticate S l t inBlock = .ok (confirmedDomainID, issuerSD) ↔
      ∃ pubKey, resolveKey S l t inBlock = .ok pubKey ∧ pubKey.length = 32 ∧
        t.verifySignature S pubKey = true ∧ (S.genAddress pubKey).1 = true ∧
        l.findByID (S.genAddress pubKey).2 = some issuerSD ∧
        confirmedDomainID = Ledger.addressOf (S.genAddress pubKey).2 := by
  unfold authenticate
  cases hkey : resolveKey S l t inBlock with
  | error result => exact ⟨nofun, fun ⟨_, h, _⟩ => nomatch h⟩
  | ok pubKey =>
      dsimp only
      constructor
      · intro hok
        cases hdomain : l.findByID (S.genAddress pubKey).2 with
        | none =>
            rw [hdomain] at hok
            dsimp only at hok
            split_ifs at hok
        | some found =>
            rw [hdomain] at hok
            dsimp only at hok
            split_ifs at hok with hlength hsigned haddress
            obtain ⟨rfl, rfl⟩ := Prod.mk.inj (Except.ok.inj hok)
            exact ⟨pubKey, rfl, Decidable.not_not.mp hlength, Bool.eq_true_of_not_eq_false hsigned,
              Bool.eq_true_of_not_eq_false haddress, hdomain, rfl⟩
      · rintro ⟨key, hok, hlength, hsigned, haddress, hdomain, rfl⟩
        obtain rfl := Except.ok.inj hok
        rw [if_neg (not_not_intro hlength), if_neg (by rw [hsigned]; decide),
          if_neg (by rw [haddress]; decide), hdomain]

theorem judgeIssuer_eq_execute_iff {confirmedDomainID : Bytes} {issuerSD : StateDomain}
    {excused enforceFailure : Bool} {executedID : Bytes} :
    judgeIssuer S t keyHeight excused enforceFailure confirmedDomainID issuerSD =
        .execute executedID ↔
      (issuerSD.mNonce + 1 = t.mNonce ∨ excused = true) ∧ enforceFailure = false ∧
        ¬ (t.mErgPrice = 0 ∨ t.mErgPrice < S.getMinNodeERGPrice keyHeight) ∧
        issuerSD.getBalance ≠ 0 ∧ ¬ issuerSD.getBalance < t.mErgLimit * t.mErgPrice ∧
        SacrificeWellFormed S t ∧ executedID = confirmedDomainID := by
  unfold judgeIssuer
  constructor
  · intro hexecute
    split_ifs at hexecute with hnonce henforce hprice hbalance hcovered hsacrifice
    obtain rfl := Verdict.execute.inj hexecute
    refine ⟨?_, Bool.eq_false_of_not_eq_true henforce, hprice, hbalance, hcovered, hsacrifice, rfl⟩
    cases excused with
    | true => exact Or.inr rfl
    | false => exact Or.inl (Decidable.not_not.mp fun h => hnonce ⟨h, rfl⟩)
  · rintro ⟨hnonce, rfl, hprice, hbalance, hcovered, hsacrifice, rfl⟩
    have htimely : ¬ (issuerSD.mNonce + 1 ≠ t.mNonce ∧ excused = false) := by
      rintro ⟨hne, rfl⟩
      exact hnonce.elim hne nofun
    rw [if_neg htimely, if_neg Bool.false_ne_true, if_neg hprice, if_neg hbalance, if_neg hcovered,
      if_neg hsacrifice]

/-- The verdict on a new transaction is to run its script exactly for a chargeable key that no check of
the issuer's name turns away, and no ill-formed sacrifice. -/
theorem judge_executes_iff :
    (∃ executedID, judge S l t keyHeight none none false = .ok (.execute executedID)) ↔
      IssuerStartsWithAddress S t ∧ (t.mPubKey.length = 32 ∨ ¬ IssuerSilenced S t) ∧
        SacrificeWellFormed S t ∧ ∃ pubKey issuerSD, keyOf l t = some pubKey ∧
          Chargeable S l t keyHeight pubKey issuerSD := by
  by_cases hreaches : IssuerReaches S t
  · obtain ⟨matching, heq, hmatching⟩ := keyMatchesIssuer_eq hreaches
    unfold judge
    rw [heq, ← hmatching]
    cases matching with
    | false => exact ⟨fun ⟨_, h⟩ => (nomatch h), fun h => nomatch h.1⟩
    | true =>
        dsimp only
        constructor
        · rintro ⟨executedID, hexecute⟩
          cases hauth : authenticate S l t (none : Option CBlockProposal).isSome with
          | error result =>
              rw [hauth] at hexecute
              cases hexecute
          | ok issuer =>
              rw [hauth] at hexecute
              obtain ⟨confirmedDomainID, issuerSD⟩ := issuer
              obtain ⟨hnonce, -, hprice, hbalance, hcovered, hsacrifice, -⟩ :=
                judgeIssuer_eq_execute_iff.mp (Except.ok.inj hexecute)
              obtain ⟨pubKey, hkey, hlength, hsigned, haddress, hdomain, -⟩ :=
                authenticate_eq_ok_iff.mp hauth
              obtain ⟨hfound, hnotSilenced⟩ := resolveKey_eq_ok_iff.mp hkey
              refine ⟨rfl, ?_, hsacrifice, pubKey, issuerSD, hfound,
                ⟨hlength, hsigned, haddress, hdomain, hprice, hcovered⟩,
                hnonce.resolve_right nofun, hbalance⟩
              exact hnotSilenced.imp_right fun h => h.resolve_left nofun
        · rintro ⟨-, hnotSilenced, hsacrifice, pubKey, issuerSD, hfound, hcharge⟩
          have hkey : resolveKey S l t false = .ok pubKey :=
            resolveKey_eq_ok_iff.mpr ⟨hfound, hnotSilenced.imp_right Or.inr⟩
          have hauth := authenticate_eq_ok_iff.mpr
            ⟨pubKey, hkey, hcharge.length, hcharge.signed, hcharge.address, hcharge.domain, rfl⟩
          rw [Option.isSome_none, hauth]
          exact ⟨_, congrArg _ (judgeIssuer_eq_execute_iff.mpr
            ⟨Or.inl hcharge.nonce, rfl, hcharge.price, hcharge.funded, hcharge.covered, hsacrifice,
              rfl⟩)⟩
  · unfold judge
    rw [keyMatchesIssuer_eq_error hreaches]
    refine ⟨fun ⟨_, h⟩ => (nomatch h), fun h => absurd ?_ hreaches⟩
    exact fun hkey hissuer => (h.1 hkey hissuer).1

end Shared

/-! ### The comparison -/

section Comparison

variable {S : NodeServices} {DB : Type} {T : LedgerTrie DB} {m : TransactionManager DB}
  {t : PoolTransaction} {keyHeight : UInt64} {receiptID : Bytes} {excuseERGusage : Bool}

/-- The script of the transaction was run. -/
def RunsScript (result : Except ProcessFault (Processed × TransactionManager DB)) : Prop :=
  ∃ processed m', result = .ok (processed, m') ∧ processed.scriptCall.isSome = true

/-- Pre-validation predicts the processing of a transaction that is not part of a block. -/
structure Predicts (S : NodeServices) (T : LedgerTrie DB) (m : TransactionManager DB)
    (t : PoolTransaction) (keyHeight : UInt64) (receiptID : Bytes) (excuseERGusage : Bool) :
    Prop where
  terminates : ∃ processed,
    processTransaction S T m t keyHeight receiptID none none excuseERGusage false = .ok processed
  refuses : preValidateTransaction S (m.ledger T) t.toCTransaction keyHeight none ≠ .valid →
    ¬ RunsScript (processTransaction S T m t keyHeight receiptID none none excuseERGusage false)
  runs : preValidateTransaction S (m.ledger T) t.toCTransaction keyHeight none = .valid →
    ∀ pubKey issuerSD, preValidateKey S (m.ledger T) t.toCTransaction = .ok pubKey →
      (m.ledger T).findByID (S.genAddress pubKey).2 = some issuerSD →
      t.mNonce.toNat = issuerSD.mNonce.toNat + 1 → ¬ IssuerSilenced S t →
      issuerSD.getBalance ≠ 0 → S.getMinERGLimit ≤ t.mErgLimit →
      RunsScript (processTransaction S T m t keyHeight receiptID none none excuseERGusage false)

/-- What pre-validation asks of the form of a transaction, beside what both ask. -/
structure WellFormedTransaction (S : NodeServices) (t : PoolTransaction) : Prop where
  code : decompilable S t.toCTransaction = true
  key : KeyWellFormed S t
  nonce : t.mNonce ≠ 0

/-- Where the two agree: the limit is one that is allowed, the issuer is long enough to be compared,
and a transaction that can be charged and whose issuer is not turned away has the form that each of
the two asks for, or neither. -/
structure Agreed (S : NodeServices) (l : Ledger) (t : PoolTransaction) (keyHeight : UInt64) :
    Prop where
  limit : ¬ t.mErgLimit < S.getMinERGLimit
  reaches : IssuerReaches S t
  forms : ∀ pubKey issuerSD, keyOf l t = some pubKey →
    Chargeable S l t keyHeight pubKey issuerSD → IssuerStartsWithAddress S t →
    (t.mPubKey.length = 32 ∨ ¬ IssuerSilenced S t) →
      (SacrificeWellFormed S t → WellFormedTransaction S t) ∧
        (WellFormedTransaction S t → ¬ IssuerSilenced S t → SacrificeWellFormed S t)

/-- The nonce that comes next lies above, unless it wrapped around. -/
theorem lt_iff_of_add_one_eq {a b : UInt64} (hnext : a + 1 = b) : a < b ↔ b ≠ 0 := by
  subst hnext
  rw [UInt64.lt_iff_toNat_lt, Ne, ← UInt64.toNat_inj, UInt64.toNat_add]
  have ha := a.toNat_lt
  have hone : (1 : UInt64).toNat = 1 := rfl
  have hzero : (0 : UInt64).toNat = 0 := rfl
  rw [hone, hzero]
  omega

theorem add_one_eq_of_toNat {a b : UInt64} (hnext : b.toNat = a.toNat + 1) : a + 1 = b := by
  have hb := b.toNat_lt
  rw [← UInt64.toNat_inj, UInt64.toNat_add]
  have hone : (1 : UInt64).toNat = 1 := rfl
  rw [hone, hnext, Nat.mod_eq_of_lt]
  omega

/-- Carrying out a verdict on a new transaction runs the script exactly if it was to be executed. -/
theorem scriptCall_carryOut_iff {l : Ledger} {verdict : Verdict} {processed : Processed}
    (hcarry : carryOut S l t keyHeight receiptID none none excuseERGusage verdict =
      .ok processed) :
    processed.scriptCall.isSome = true ↔ ∃ executedID, verdict = .execute executedID := by
  constructor
  · intro hrun
    cases verdict with
    | refused result doNotInclude confirmedDomainID =>
        obtain rfl := Except.ok.inj hcarry
        cases hrun
    | untimely deferred confirmedDomainID =>
        obtain rfl := Except.ok.inj hcarry
        cases hrun
    | failureEnforced confirmedDomainID =>
        unfold carryOut at hcarry
        dsimp only at hcarry
        split at hcarry
        · cases hcarry
        · cases hcarry
        · rename_i hreceipt
          cases hreceipt
    | invalidSacrifice confirmedDomainID =>
        obtain rfl := Except.ok.inj hcarry
        cases hrun
    | execute confirmedDomainID => exact ⟨_, rfl⟩
  · rintro ⟨executedID, rfl⟩
    obtain rfl := Except.ok.inj hcarry
    rfl

/-- A failure is enforced only where that is asked for. -/
theorem judge_ne_failureEnforced {l : Ledger} {existingReceipt : Option CReceipt}
    {existingBlock : Option CBlockProposal} {confirmedDomainID : Bytes} :
    judge S l t keyHeight existingReceipt existingBlock false ≠ .ok (.failureEnforced confirmedDomainID) := by
  intro hjudge
  unfold judge judgeIssuer at hjudge
  split at hjudge
  · cases hjudge
  · cases hjudge
  · split at hjudge
    · cases hjudge
    · have hverdict := Except.ok.inj hjudge
      split_ifs at hverdict with hnonce henforce
      exact henforce

/-- Without an enforced failure every verdict on a new transaction can be carried out. -/
theorem carryOut_ok {l : Ledger} {verdict : Verdict} (receiptID : Bytes) (excuseERGusage : Bool)
    (hjudge : judge S l t keyHeight none none false = .ok verdict) :
    ∃ processed,
      carryOut S l t keyHeight receiptID none none excuseERGusage verdict = .ok processed := by
  cases verdict with
  | refused result doNotInclude confirmedDomainID => exact ⟨_, rfl⟩
  | untimely deferred confirmedDomainID => exact ⟨_, rfl⟩
  | failureEnforced confirmedDomainID => exact absurd hjudge judge_ne_failureEnforced
  | invalidSacrifice confirmedDomainID => exact ⟨_, rfl⟩
  | execute confirmedDomainID => exact ⟨_, rfl⟩

/-- When processing runs the script of a new transaction. -/
theorem runsScript_iff (hT : T.Documented) (hm : m.WellFormed T.toTrieDB)
    (htwo : 2 ≤ m.mAllowedInterFlowSteps) (hlimit : ¬ t.mErgLimit < S.getMinERGLimit) :
    RunsScript (processTransaction S T m t keyHeight receiptID none none excuseERGusage false) ↔
      IssuerStartsWithAddress S t ∧ (t.mPubKey.length = 32 ∨ ¬ IssuerSilenced S t) ∧
        SacrificeWellFormed S t ∧ ∃ pubKey issuerSD, keyOf (m.ledger T) t = some pubKey ∧
          Chargeable S (m.ledger T) t keyHeight pubKey issuerSD := by
  obtain ⟨m₁, hpush, hstate⟩ :=
    TransactionManager.pushDB_ok hm htwo (T.copy m.mFlowStateDB) true []
  have hledger : m₁.ledger T = m.ledger T := congrArg T.domains hstate
  rw [processTransaction_eq hT hpush (fun h => hlimit h.2), ← judge_executes_iff, hledger,
    processOver]
  cases hjudge : judge S (m.ledger T) t keyHeight none none false with
  | error e => exact ⟨fun ⟨_, _, h, _⟩ => (nomatch h), fun ⟨_, h⟩ => nomatch h⟩
  | ok verdict =>
      obtain ⟨processed, hcarry⟩ := carryOut_ok receiptID excuseERGusage hjudge
      dsimp only
      rw [hcarry]
      constructor
      · rintro ⟨processed', m', hok, hrun⟩
        obtain ⟨rfl, -⟩ := Prod.mk.inj (Except.ok.inj hok)
        obtain ⟨executedID, hverdict⟩ := (scriptCall_carryOut_iff hcarry).mp hrun
        exact ⟨executedID, congrArg _ hverdict⟩
      · rintro ⟨executedID, hverdict⟩
        exact ⟨_, _, rfl,
          (scriptCall_carryOut_iff hcarry).mpr ⟨executedID, Except.ok.inj hverdict⟩⟩

theorem processTransaction_terminates_iff (hT : T.Documented) (hm : m.WellFormed T.toTrieDB)
    (htwo : 2 ≤ m.mAllowedInterFlowSteps) :
    (∃ processed,
      processTransaction S T m t keyHeight receiptID none none excuseERGusage false =
        .ok processed) ↔
      ¬ t.mErgLimit < S.getMinERGLimit ∧ IssuerReaches S t := by
  by_cases hlimit : t.mErgLimit < S.getMinERGLimit
  · refine ⟨fun ⟨_, h⟩ => ?_, fun h => absurd hlimit h.1⟩
    rw [processTransaction, if_pos ⟨rfl, hlimit⟩] at h
    cases h
  obtain ⟨m₁, hpush, hstate⟩ :=
    TransactionManager.pushDB_ok hm htwo (T.copy m.mFlowStateDB) true []
  rw [processTransaction_eq hT hpush (fun h => hlimit h.2), processOver]
  by_cases hreaches : IssuerReaches S t
  · refine ⟨fun _ => ⟨hlimit, hreaches⟩, fun _ => ?_⟩
    obtain ⟨matching, heq, -⟩ := keyMatchesIssuer_eq hreaches
    have hjudge : ∃ verdict, judge S (m₁.ledger T) t keyHeight none none false = .ok verdict := by
      unfold judge
      rw [heq]
      cases matching with
      | false => exact ⟨_, rfl⟩
      | true =>
          dsimp only
          split
          · exact ⟨_, rfl⟩
          · exact ⟨_, rfl⟩
    obtain ⟨verdict, hverdict⟩ := hjudge
    obtain ⟨processed, hcarry⟩ := carryOut_ok receiptID excuseERGusage hverdict
    rw [hverdict]
    dsimp only
    rw [hcarry]
    exact ⟨_, rfl⟩
  · refine ⟨fun ⟨_, h⟩ => ?_, fun h => absurd h.2 hreaches⟩
    rw [judge, keyMatchesIssuer_eq_error hreaches] at h
    cases h

/-- Pre-validation predicts processing exactly where the two agree on the form of the transaction. -/
theorem preValidation_predicts_iff (hT : T.Documented) (hm : m.WellFormed T.toTrieDB)
    (htwo : 2 ≤ m.mAllowedInterFlowSteps) :
    Predicts S T m t keyHeight receiptID excuseERGusage ↔ Agreed S (m.ledger T) t keyHeight := by
  constructor
  · intro hpredicts
    obtain ⟨hlimit, hreaches⟩ :=
      (processTransaction_terminates_iff hT hm htwo).mp hpredicts.terminates
    refine ⟨hlimit, hreaches, fun pubKey issuerSD hkey hcharge hstarts hfree => ⟨?_, ?_⟩⟩
    · intro hsacrifice
      have hrun : RunsScript (processTransaction S T m t keyHeight receiptID none none
          excuseERGusage false) :=
        (runsScript_iff hT hm htwo hlimit).mpr
          ⟨hstarts, hfree, hsacrifice, pubKey, issuerSD, hkey, hcharge⟩
      have hvalid := Decidable.not_not.mp fun h => hpredicts.refuses h hrun
      obtain ⟨hcode, hwell, key, found, hkey', hpayable, hnonce⟩ :=
        preValidateTransaction_eq_valid_iff.mp hvalid
      obtain rfl := Option.some.inj (hkey.symm.trans hkey')
      obtain rfl := Option.some.inj (hcharge.domain.symm.trans hpayable.domain)
      exact ⟨hcode, hwell, (lt_iff_of_add_one_eq hcharge.nonce).mp hnonce⟩
    · intro hform hsilent
      have hnonce := (lt_iff_of_add_one_eq hcharge.nonce).mpr hform.nonce
      have hvalid := preValidateTransaction_eq_valid_iff.mpr
        ⟨hform.code, hform.key, pubKey, issuerSD, hkey, hcharge.toPayable, hnonce⟩
      have hnext : t.mNonce.toNat = issuerSD.mNonce.toNat + 1 := by
        have hle := issuerSD.mNonce.toNat_lt
        have hlt := UInt64.lt_iff_toNat_lt.mp hnonce
        rw [← hcharge.nonce, UInt64.toNat_add] at hlt ⊢
        have hone : (1 : UInt64).toNat = 1 := rfl
        rw [hone] at hlt ⊢
        omega
      have hrun := hpredicts.runs hvalid pubKey issuerSD
        ((preValidateKey_eq_ok_iff hcharge.length).mpr ⟨hform.key, hkey⟩) hcharge.domain hnext
        hsilent hcharge.funded (BitVec.not_lt.mp hlimit)
      exact ((runsScript_iff hT hm htwo hlimit).mp hrun).2.2.1
  · intro hagreed
    refine ⟨?_, ?_, ?_⟩
    · exact (processTransaction_terminates_iff hT hm htwo).mpr ⟨hagreed.limit, hagreed.reaches⟩
    · intro hinvalid hrun
      obtain ⟨hstarts, hfree, hsacrifice, pubKey, issuerSD, hkey, hcharge⟩ :=
        (runsScript_iff hT hm htwo hagreed.limit).mp hrun
      have hform := (hagreed.forms pubKey issuerSD hkey hcharge hstarts hfree).1 hsacrifice
      exact hinvalid (preValidateTransaction_eq_valid_iff.mpr
        ⟨hform.code, hform.key, pubKey, issuerSD, hkey, hcharge.toPayable,
          (lt_iff_of_add_one_eq hcharge.nonce).mpr hform.nonce⟩)
    · intro hvalid pubKey issuerSD hpre hdomain hnext hsilent hfunded _
      obtain ⟨hcode, hwell, key, found, hkey, hpayable, hnonce⟩ :=
        preValidateTransaction_eq_valid_iff.mp hvalid
      have hpre' := (preValidateKey_eq_ok_iff (S := S) hpayable.length).mpr ⟨hwell, hkey⟩
      obtain rfl := Except.ok.inj (hpre.symm.trans hpre')
      obtain rfl := Option.some.inj (hdomain.symm.trans hpayable.domain)
      have hcharge : Chargeable S (m.ledger T) t keyHeight pubKey issuerSD :=
        ⟨hpayable, add_one_eq_of_toNat hnext, hfunded⟩
      have hstarts : IssuerStartsWithAddress S t := by
        intro hne hissuer
        obtain ⟨-, hmatch⟩ := hwell.issuer hne hissuer
        exact ⟨hagreed.reaches hne hissuer, by rw [hmatch, List.take_length]⟩
      have hform : WellFormedTransaction S t :=
        ⟨hcode, hwell, (lt_iff_of_add_one_eq hcharge.nonce).mp hnonce⟩
      have hsacrifice :=
        (hagreed.forms pubKey issuerSD hkey hcharge hstarts (Or.inr hsilent)).2 hform hsilent
      exact (runsScript_iff hT hm htwo hagreed.limit).mpr
        ⟨hstarts, Or.inr hsilent, hsacrifice, pubKey, issuerSD, hkey, hcharge⟩

end Comparison

section Samples

theorem sampleTransaction_form : WellFormedTransaction sampleServices (sampleTransaction 1) :=
  ⟨rfl, ⟨Or.inr rfl, fun _ h => absurd rfl h⟩, by decide⟩

/-- A signed transaction of the right nonce and limit. -/
theorem sample_predicts :
    Predicts sampleServices sampleTrie sampleFlow (sampleTransaction 1) 1 (sampleKey 9) false :=
  (preValidation_predicts_iff sampleTrie_documented sampleFlow_wellFormed (by decide)).mpr
    { limit := by decide
      reaches := fun _ h => absurd rfl h
      forms := fun _ _ _ _ _ _ =>
        ⟨fun _ => sampleTransaction_form, fun _ _ h => Bool.false_ne_true h.1⟩ }

/-- A limit below the minimum ends the process. -/
theorem low_limit_not_predicted :
    ¬ Predicts sampleServices sampleTrie sampleFlow { sampleTransaction 1 with mErgLimit := 9 } 1
      (sampleKey 9) false := by
  rintro ⟨⟨processed, hprocessed⟩, -, -⟩
  cases hprocessed

/-- A key of 31 bytes beside an issuer: pre-validation misses a key, processing takes the token's. -/
example :
    let t : PoolTransaction :=
      { sampleTransaction 1 with mPubKey := List.replicate 31 1, mIssuer := sampleAddress 1 }
    preValidateTransaction sampleServices sampleLedger t.toCTransaction 1 none = .invalid ∧
      judge sampleServices sampleLedger t 1 none none false = .ok (.execute (sampleAddress 1)) := by
  decide +kernel

end Samples

end Gridnet
