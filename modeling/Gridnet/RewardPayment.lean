import Gridnet.FraudPenalty

/-! The operator's reward, from its verification to the balances. The tax is computed in three places, and is the
same number; a reward that was verified is paid in full exactly if it was armed and everybody can be credited. -/

namespace Gridnet

/-! ### The tax -/

section Tax

theorem ofInt_toNat (R : BigInt) : BitVec.ofInt 256 (R.toNat : ℤ) = R := by
  rw [BitVec.ofInt_natCast, BitVec.ofNat_toNat, BitVec.setWidth_eq]

/-- The verifier and the processing tax a reward as `formBlock` does. -/
theorem taxOn_eq_formationTax (rate : TaxRate) (R : BigInt) : taxOn rate R.toNat 0 = formationTax rate R := by
  have hsmall : (101 : ℤ) < R.toNat ↔ 101 < R := by
    rw [BitVec.lt_def]
    exact Int.ofNat_lt (n := 101)
  unfold taxOn formationTax
  simp only [hsmall, ofInt_toNat]

theorem formationTax_toNat_le (rate : TaxRate) (R : BigInt) : (formationTax rate R).toNat ≤ R.toNat := by
  unfold formationTax
  split_ifs with hlarge hunit
  · calc (R * BitVec.ofNat 256 rate.millionths / 1000000).toNat
        ≤ R.toNat * rate.millionths / 1000000 := share_toNat_le R rate.millionths 1000000
      _ ≤ R.toNat := Nat.div_le_of_le_mul (by
          rw [Nat.mul_comm]
          exact Nat.mul_le_mul_right _ (rate.bounded hunit))
  · exact Nat.zero_le _
  · exact Nat.zero_le _

theorem rewardAfterTax_eq (rate : TaxRate) (R : BigInt) :
    rewardAfterTax R.toNat (formationTax rate R) = R - formationTax rate R := by
  have hle := formationTax_toNat_le rate R
  unfold rewardAfterTax
  split_ifs with hless
  · apply BitVec.eq_of_toNat_eq
    rw [← Int.ofNat_sub hle, BitVec.ofInt_natCast, BitVec.toNat_ofNat, BitVec.toNat_sub_of_le hle,
      Nat.mod_eq_of_lt (by omega)]
  · have hall : formationTax rate R = R := BitVec.eq_of_toNat_eq (by omega)
    rw [hall, BitVec.sub_self]
    rfl

/-- Tax and reward are all of it. -/
theorem formationTax_add (rate : TaxRate) (R : BigInt) :
    (formationTax rate R).toNat + (R - formationTax rate R).toNat = R.toNat := by
  have hle := formationTax_toNat_le rate R
  rw [BitVec.toNat_sub_of_le hle]
  omega

end Tax

/-! ### Credits -/

namespace StateDomain

/-- The domain after a credit whose outcome is not looked at. -/
def credit (d : StateDomain) (R : BigInt) : StateDomain := (d.changeBalanceBy R.toNat).getD d

theorem changeBalanceBy_eq (d : StateDomain) (R : BigInt) :
    d.changeBalanceBy R.toNat = if d.assetType = .unsignedInteger then none else some (d.credit R) := by
  unfold credit
  cases htype : d.assetType with
  | BigInt => rw [if_neg (by decide), changeBalanceBy_bigInt htype, Option.getD_some]
  | noData => rw [if_neg (by decide), changeBalanceBy_noData htype, Option.getD_some]
  | unsignedInteger => rw [if_pos rfl, changeBalanceBy_unsigned htype]

theorem credit_toCStateDomain (d : StateDomain) (R : BigInt) : (d.credit R).toCStateDomain = d.toCStateDomain := by
  unfold credit
  cases htype : d.assetType with
  | BigInt => rw [changeBalanceBy_bigInt htype, Option.getD_some]
  | noData => rw [changeBalanceBy_noData htype, Option.getD_some]
  | unsignedInteger => rw [changeBalanceBy_unsigned htype, Option.getD_none]

theorem credit_assetType (d : StateDomain) (R : BigInt) :
    (d.credit R).assetType = .unsignedInteger ↔ d.assetType = .unsignedInteger := by
  unfold credit
  cases htype : d.assetType with
  | BigInt => rw [changeBalanceBy_bigInt htype, Option.getD_some]; simp [htype]
  | noData => rw [changeBalanceBy_noData htype, Option.getD_some]; simp
  | unsignedInteger => rw [changeBalanceBy_unsigned htype, Option.getD_none]; simp [htype]

theorem Readable.credit {d : StateDomain} (hread : d.Readable) (R : BigInt) : (d.credit R).Readable := by
  unfold StateDomain.credit
  cases htype : d.assetType with
  | BigInt =>
      rw [changeBalanceBy_bigInt htype, Option.getD_some]
      exact fun hnoData => absurd (htype.symm.trans hnoData) (by decide)
  | noData =>
      rw [changeBalanceBy_noData htype, Option.getD_some]
      exact nofun
  | unsignedInteger =>
      rw [changeBalanceBy_unsigned htype, Option.getD_none]
      exact hread

end StateDomain

namespace Ledger

/-- The domain of an address, a new one if there is none. -/
def domainOf (l : Ledger) (id : Bytes) : StateDomain := (l.findByID id).getD {}

/-- The ledger with a domain at the address. -/
def withDomain (l : Ledger) (id : Bytes) : Ledger := l.save id (l.domainOf id)

theorem withDomain_of_some {l : Ledger} {id : Bytes} {d : StateDomain} (hd : l.findByID id = some d) :
    l.withDomain id = l := by
  rw [withDomain, domainOf, hd, Option.getD_some]
  exact Function.update_eq_self_iff.mpr hd.symm

theorem getBalance_domainOf (l : Ledger) (id : Bytes) :
    (l.domainOf id).getBalance = l.balanceAt (addressOf id) := by
  unfold domainOf balanceAt findByID
  cases l (addressOf id) with
  | none => rfl
  | some d => rfl

theorem gains_withDomain (l : Ledger) (id : Bytes) : l.Gains (l.withDomain id) (addressOf id) 0 := by
  apply gains_save
  rw [getBalance_domainOf, add_zero]

theorem Readable.domainOf {l : Ledger} (hread : l.Readable) (id : Bytes) : (l.domainOf id).Readable := by
  unfold Ledger.domainOf findByID
  cases hd : l (addressOf id) with
  | none => exact fun _ => rfl
  | some d => exact hread _ _ hd

theorem Readable.save {l : Ledger} (hread : l.Readable) {d : StateDomain} (hd : d.Readable) (id : Bytes) :
    (l.save id d).Readable := by
  intro a d' hd'
  by_cases ha : a = addressOf id
  · rw [ha, save_self] at hd'
    obtain rfl := Option.some.inj hd'
    exact hd
  · rw [save_of_ne _ _ ha] at hd'
    exact hread a d' hd'

end Ledger

/-! ### Payment -/

section Payment

variable {Trie : Type} (S : RewardServices Trie) (chain : ChainView) (keyHeight : UInt64) (block : RewardedBlock)

/-- The treasury can be paid, or there is nothing to pay. -/
structure TaxPayable (st : RewardState) (address : Bytes) (tax : BigInt) : Prop where
  present : (st.ledger.findByID S.getTreasuryDomainID).isSome ∨ tax = 0 ∨
    Ledger.addressOf address = Ledger.addressOf S.getTreasuryDomainID
  number : (st.ledger.domainOf S.getTreasuryDomainID).assetType ≠ .unsignedInteger
  room : (st.ledger.domainOf S.getTreasuryDomainID).getBalance.toNat + tax.toNat < 2 ^ 256

/-- The domain that a reward goes to can be credited and locked, and it is that of the operator or the treasury, or
nothing is left to pay. -/
structure BeneficiaryPayable (st : RewardState) (address : Bytes) (tax paid : BigInt) : Prop where
  creatable : (st.ledger.findByID address).isSome ∨ S.addNodeExt st.ledger address = true
  number : (st.ledger.domainOf address).assetType ≠ .unsignedInteger
  room : (st.ledger.domainOf address).getBalance.toNat + paid.toNat +
    (if Ledger.addressOf address = Ledger.addressOf S.getTreasuryDomainID then tax.toNat else 0) < 2 ^ 256
  lockable : ∃ locked, (st.ledger.domainOf address).toCStateDomain.incLockedAssets S.values block.keyHeight paid
    (block.keyHeight + S.getMinersLockPeriod) = .ok locked
  operator : Ledger.addressOf address = Ledger.addressOf block.mMinersID ∨
    Ledger.addressOf address = Ledger.addressOf S.getTreasuryDomainID ∨ paid = 0

/-- A reward `R` is armed, its block has an operator, and everybody can be paid. -/
structure RewardPayable (v : PoolVerifiable) (st : RewardState) (R : BigInt) : Prop where
  armed : v.mIsArmed = true ∨ block.isCheckpointed = true ∨ S.ENABLE_FLOW_DETAILED_LOGS_VERIFIER = true
  operator : block.mMinersID ≠ []
  treasury : (st.ledger.findByID S.getTreasuryDomainID).isSome ∨ keyHeight = 0
  tax : ∀ change ∈ v.mAffectedDomains,
    TaxPayable S st change.address (formationTax (S.getMiningTax block.keyHeight) R)
  beneficiary : ∀ change ∈ v.mAffectedDomains,
    BeneficiaryPayable S block st change.address (formationTax (S.getMiningTax block.keyHeight) R)
      (R - formationTax (S.getMiningTax block.keyHeight) R)

/-- The verifiable is armed, processing it adds `R` to the balances of operator and treasury, the header of a block
without a checkpoint says so, and the tax is the one of the formation, whatever the rate. -/
structure PaysExactly (armed : PoolVerifiable) (receiptID : Bytes) (st : RewardState) (R : BigInt) : Prop where
  isArmed : armed.isArmed = true
  paid : ∃ receipt st', processVerifiable S chain keyHeight block armed receiptID st = .ok (receipt, st') ∧
    receipt.mResult = .valid ∧
    st'.ledger.total {Ledger.addressOf block.mMinersID, Ledger.addressOf S.getTreasuryDomainID} =
      st.ledger.total {Ledger.addressOf block.mMinersID, Ledger.addressOf S.getTreasuryDomainID} + R.toNat
  header : block.isCheckpointed = false → block.getTotalBlockReward = R ∧
    block.getPaidToMiner = R - formationTax (S.getMiningTax block.keyHeight) R
  taxes : ∀ rate : TaxRate, taxOn rate R.toNat 0 = formationTax rate R

variable {S chain keyHeight block} {l l' : Ledger} {address receiptID : Bytes} {tax paid R : BigInt}
  {v armed : PoolVerifiable} {change : BalanceChange} {st st' : RewardState}

/-! ### Verification -/

theorem verifyMinerReward_some (haccepts : verifyMinerReward S.toVerifiableServices block v.copied R = some armed) :
    ∃ change, v.mAffectedDomains = [change] ∧
      (block.isCheckpointed = false → rewardAgrees S.toVerifiableServices block change R = true) ∧
      armed.getAffectedStateDomains = [⟨change.address, R.toNat⟩] ∧ armed.copied = v.copied ∧
      armed.mVerifiableType = v.mVerifiableType ∧
      (armed.isArmed = true ↔
        v.mIsArmed = true ∨ block.isCheckpointed = true ∨ S.ENABLE_FLOW_DETAILED_LOGS_VERIFIER = true) := by
  have hplain : v.copied.getAffectedStateDomains = v.mAffectedDomains := by
    unfold PoolVerifiable.getAffectedStateDomains PoolVerifiable.copied
    simp
  unfold verifyMinerReward at haccepts
  rw [hplain] at haccepts
  split at haccepts
  case h_2 => cases haccepts
  case h_1 change hchange =>
    have hoverride : ∀ amount : ℤ, (v.copied.armBalanceChange change.address amount).getAffectedStateDomains =
        [⟨change.address, amount⟩] := by
      intro amount
      unfold PoolVerifiable.getAffectedStateDomains PoolVerifiable.armBalanceChange PoolVerifiable.copied
      simp [hchange]
    have harmed : ∀ amount : ℤ, (v.copied.armBalanceChange change.address amount).isArmed = true := by
      intro amount
      simp [PoolVerifiable.isArmed, PoolVerifiable.armBalanceChange]
    split_ifs at haccepts with hcount hcheckpointed hagrees hflag
    · obtain rfl := Option.some.inj haccepts
      exact ⟨change, hchange, fun h => absurd (h.symm.trans hcheckpointed) nofun, hoverride _, rfl, rfl,
        iff_of_true (harmed _) (.inr (.inl hcheckpointed))⟩
    · obtain rfl := Option.some.inj haccepts
      exact ⟨change, hchange, fun _ => hagrees, hoverride _, rfl, rfl, iff_of_true (harmed _) (.inr (.inr hflag))⟩
    · obtain rfl := Option.some.inj haccepts
      refine ⟨change, hchange, fun _ => hagrees, ?_, rfl, rfl, ?_⟩
      · obtain ⟨-, htotal, hamount⟩ := of_decide_eq_true hagrees
        rw [hplain, hchange]
        rw [htotal] at hamount
        rw [← hamount]
      · simp [PoolVerifiable.isArmed, PoolVerifiable.copied, hcheckpointed, hflag]

/-- What the verifier has agreed on with the header. -/
theorem header_of_rewardAgrees (hagrees : rewardAgrees S.toVerifiableServices block change R = true) :
    block.getTotalBlockReward = R ∧
      block.getPaidToMiner = R - formationTax (S.getMiningTax block.keyHeight) R := by
  obtain ⟨hpaid, htotal, -⟩ := of_decide_eq_true hagrees
  rw [taxOn_eq_formationTax] at hpaid
  exact ⟨htotal, hpaid⟩

/-! ### Processing -/

theorem Ledger.domainOf_congr (l : Ledger) {id id' : Bytes} (hsame : Ledger.addressOf id = Ledger.addressOf id') :
    l.domainOf id = l.domainOf id' := by
  rw [Ledger.domainOf, Ledger.domainOf, Ledger.findByID, Ledger.findByID, hsame]

theorem Ledger.domainOf_save_of_ne (l : Ledger) {id id' : Bytes} (d : StateDomain)
    (hne : Ledger.addressOf id' ≠ Ledger.addressOf id) : (l.save id d).domainOf id' = l.domainOf id' := by
  rw [Ledger.domainOf, Ledger.domainOf, Ledger.findByID, Ledger.findByID, Ledger.save_of_ne _ _ hne]

theorem Ledger.domainOf_save_of_eq (l : Ledger) {id id' : Bytes} (d : StateDomain)
    (hsame : Ledger.addressOf id' = Ledger.addressOf id) : (l.save id d).domainOf id' = d := by
  rw [Ledger.domainOf_congr _ hsame, Ledger.domainOf, Ledger.findByID_save, Option.getD_some]

@[simp] theorem Ledger.domainOf_withDomain (l : Ledger) (id id' : Bytes) :
    (l.withDomain id).domainOf id' = l.domainOf id' := by
  by_cases hsame : Ledger.addressOf id' = Ledger.addressOf id
  · rw [Ledger.withDomain, Ledger.domainOf_save_of_eq _ _ hsame, Ledger.domainOf_congr _ hsame]
  · rw [Ledger.withDomain, Ledger.domainOf_save_of_ne _ _ hsame]

theorem Ledger.isSome_withDomain (l : Ledger) (id id' : Bytes) :
    ((l.withDomain id).findByID id').isSome = true ↔
      (l.findByID id').isSome = true ∨ Ledger.addressOf id = Ledger.addressOf id' := by
  by_cases hsame : Ledger.addressOf id' = Ledger.addressOf id
  · rw [Ledger.withDomain, Ledger.findByID, hsame, Ledger.save_self]
    exact iff_of_true rfl (.inr rfl)
  · rw [Ledger.withDomain, Ledger.findByID, Ledger.save_of_ne _ _ hsame]
    exact ⟨.inl, fun h => h.resolve_right fun h' => hsame h'.symm⟩

theorem findOrCreate_eq (l : Ledger) (address : Bytes) :
    findOrCreate S l address =
      if (l.findByID address).isSome = true ∨ S.addNodeExt l address = true then
        .ok (l.domainOf address, l.withDomain address)
      else .error (.fault .assertion) := by
  unfold findOrCreate
  cases hfound : l.findByID address with
  | none =>
      have hnew : l.domainOf address = {} := by rw [Ledger.domainOf, hfound, Option.getD_none]
      simp only [Option.isSome_none, Bool.false_eq_true, false_or, Ledger.withDomain, hnew]
  | some d =>
      have hknown : l.domainOf address = d := by rw [Ledger.domainOf, hfound, Option.getD_some]
      rw [hknown, Ledger.withDomain_of_some hfound]
      exact (if_pos (Or.inl rfl)).symm

variable (S) in
/-- The ledger after the treasury, if there is one, was paid. -/
def taxed (l : Ledger) (tax : BigInt) : Ledger :=
  if (l.findByID S.getTreasuryDomainID).isSome then
    l.save S.getTreasuryDomainID ((l.domainOf S.getTreasuryDomainID).credit tax)
  else l

theorem payTax_eq (l : Ledger) (tax : BigInt) :
    payTax S l tax =
      if (l.domainOf S.getTreasuryDomainID).assetType = .unsignedInteger then none else some (taxed S l tax) := by
  unfold payTax taxed
  cases hfound : l.findByID S.getTreasuryDomainID with
  | none =>
      have hnew : l.domainOf S.getTreasuryDomainID = {} := by rw [Ledger.domainOf, hfound, Option.getD_none]
      rw [hnew, if_neg nofun, Option.isSome_none, if_neg Bool.false_ne_true]
  | some treasury =>
      have hknown : l.domainOf S.getTreasuryDomainID = treasury := by
        rw [Ledger.domainOf, hfound, Option.getD_some]
      rw [hknown, Option.isSome_some, if_pos rfl]
      dsimp only
      rw [StateDomain.changeBalanceBy_eq]
      split_ifs
      · rfl
      · rfl

/-- The tax changes nothing of a domain but its balance. -/
theorem domainOf_taxed (l : Ledger) (tax : BigInt) (id : Bytes) :
    ((taxed S l tax).domainOf id).toCStateDomain = (l.domainOf id).toCStateDomain ∧
      (((taxed S l tax).domainOf id).assetType = .unsignedInteger ↔
        (l.domainOf id).assetType = .unsignedInteger) := by
  unfold taxed
  split_ifs with hfound
  · by_cases hsame : Ledger.addressOf id = Ledger.addressOf S.getTreasuryDomainID
    · rw [Ledger.domainOf_save_of_eq _ _ hsame, Ledger.domainOf_congr _ hsame]
      exact ⟨StateDomain.credit_toCStateDomain _ _, StateDomain.credit_assetType _ _⟩
    · rw [Ledger.domainOf_save_of_ne _ _ hsame]
      exact ⟨rfl, Iff.rfl⟩
  · exact ⟨rfl, Iff.rfl⟩

theorem isSome_taxed (hfound : (l.findByID address).isSome = true) (tax : BigInt) :
    (taxed S l tax).findByID address = some ((taxed S l tax).domainOf address) := by
  have hstays : ((taxed S l tax).findByID address).isSome = true := by
    unfold taxed
    split_ifs
    · by_cases hsame : Ledger.addressOf address = Ledger.addressOf S.getTreasuryDomainID
      · rw [Ledger.findByID, hsame, Ledger.save_self]
        rfl
      · rw [Ledger.findByID, Ledger.save_of_ne _ _ hsame]
        exact hfound
    · exact hfound
  obtain ⟨d, hd⟩ := Option.isSome_iff_exists.mp hstays
  rw [hd, Ledger.domainOf, hd, Option.getD_some]

/-- A credit succeeds for a balance that is a number, within the assertion on the lock. -/
theorem creditReward_some_iff {locals : RewardLocals} {d : StateDomain} :
    (∃ locals' d', creditReward S block receiptID locals address paid d = .ok (some (locals', d'))) ↔
      d.assetType ≠ .unsignedInteger ∧ ∃ locked, d.toCStateDomain.incLockedAssets S.values block.keyHeight paid
        (block.keyHeight + S.getMinersLockPeriod) = .ok locked := by
  unfold creditReward
  rw [StateDomain.changeBalanceBy_eq]
  by_cases hunsigned : d.assetType = .unsignedInteger
  · rw [if_pos hunsigned]
    exact iff_of_false nofun fun h => h.1 hunsigned
  · rw [if_neg hunsigned]
    dsimp only
    rw [StateDomain.credit_toCStateDomain]
    cases d.toCStateDomain.incLockedAssets S.values block.keyHeight paid (block.keyHeight + S.getMinersLockPeriod) with
    | error e => exact iff_of_false nofun nofun
    | ok locked => exact iff_of_true ⟨_, _, rfl⟩ ⟨hunsigned, locked, rfl⟩

theorem getBalance_creditReward {locals locals' : RewardLocals} {d d' : StateDomain}
    (hcredit : creditReward S block receiptID locals address paid d = .ok (some (locals', d'))) :
    d'.getBalance = (d.credit paid).getBalance := by
  unfold creditReward at hcredit
  rw [StateDomain.changeBalanceBy_eq] at hcredit
  split_ifs at hcredit with hunsigned
  · cases hcredit
  · dsimp only at hcredit
    split at hcredit
    case h_1 => cases hcredit
    case h_2 =>
      cases hcredit
      rfl

/-- What has to hold of the domains when a reward is paid. -/
structure Creditable (S : RewardServices Trie) (block : RewardedBlock) (l : Ledger) (address : Bytes)
    (paid : BigInt) : Prop where
  operator : block.mMinersID ≠ []
  creatable : (l.findByID address).isSome = true ∨ S.addNodeExt l address = true
  treasuryNumber : (l.domainOf S.getTreasuryDomainID).assetType ≠ .unsignedInteger
  number : (l.domainOf address).assetType ≠ .unsignedInteger
  lockable : ∃ locked, (l.domainOf address).toCStateDomain.incLockedAssets S.values block.keyHeight paid
    (block.keyHeight + S.getMinersLockPeriod) = .ok locked

/-- What a reward that was paid leaves of the domains. -/
def PaidOut (S : RewardServices Trie) (l l' : Ledger) (address : Bytes) (tax paid : BigInt) : Prop :=
  ∃ d', d'.getBalance = (((taxed S (l.withDomain address) tax).domainOf address).credit paid).getBalance ∧
    l' = (taxed S (l.withDomain address) tax).save address d'

section Turn

variable (htax : taxOn (S.getMiningTax block.keyHeight) change.pendingPreTaxBalanceChange 0 = tax)
  (hreward : rewardAfterTax change.pendingPreTaxBalanceChange tax = paid)
  (hpaid : block.isCheckpointed = false → block.getPaidToMiner = paid)

include htax hreward hpaid

/-- A turn up to the credit of the beneficiary. -/
theorem payReward_eq (hoperator : block.mMinersID ≠ [])
    (hcreatable : (st.ledger.findByID change.address).isSome = true ∨ S.addNodeExt st.ledger change.address = true)
    (hnumber : (st.ledger.domainOf S.getTreasuryDomainID).assetType ≠ .unsignedInteger) :
    payReward S block receiptID {} change st =
      match creditReward S block receiptID { tax } block.mMinersID paid
          ((taxed S (st.ledger.withDomain change.address) tax).domainOf change.address) with
      | .error e => .error e
      | .ok none => .ok (.done .invalid, { st with ledger := taxed S (st.ledger.withDomain change.address) tax })
      | .ok (some (locals, domain)) => .ok (.proceed locals,
          { st with
            ledger := (taxed S (st.ledger.withDomain change.address) tax).save change.address domain
            rewardIssuedToMinerAfterTAX := st.rewardIssuedToMinerAfterTAX + paid }) := by
  have hknown := isSome_taxed (S := S)
    ((Ledger.isSome_withDomain st.ledger change.address change.address).mpr (.inr rfl)) tax
  have hagrees : ¬(block.isCheckpointed = false ∧ paid ≠ block.getPaidToMiner) :=
    fun h => h.2 (hpaid h.1).symm
  unfold payReward
  rw [if_neg hoperator, findOrCreate_eq, if_pos hcreatable]
  dsimp only
  rw [htax, payTax_eq, Ledger.domainOf_withDomain, if_neg hnumber]
  dsimp only
  rewrite [hreward, if_neg hagrees, hknown]
  rfl

/-- A turn pays exactly if everybody can be credited. -/
theorem payReward_proceeds_iff :
    (∃ locals' st', payReward S block receiptID {} change st = .ok (.proceed locals', st')) ↔
      Creditable S block st.ledger change.address paid := by
  have hsame := domainOf_taxed (S := S) (st.ledger.withDomain change.address) tax change.address
  rw [Ledger.domainOf_withDomain] at hsame
  constructor
  · rintro ⟨locals', st', hpay⟩
    have hoperator : block.mMinersID ≠ [] := by
      intro hnone
      rw [payReward, if_pos hnone] at hpay
      cases hpay
    have hcreatable : (st.ledger.findByID change.address).isSome = true ∨
        S.addNodeExt st.ledger change.address = true := by
      by_contra hnot
      rw [payReward, if_neg hoperator, findOrCreate_eq, if_neg hnot] at hpay
      cases hpay
    have hnumber : (st.ledger.domainOf S.getTreasuryDomainID).assetType ≠ .unsignedInteger := by
      intro hunsigned
      rw [payReward, if_neg hoperator, findOrCreate_eq, if_pos hcreatable] at hpay
      dsimp only at hpay
      rw [htax, payTax_eq, Ledger.domainOf_withDomain, if_pos hunsigned] at hpay
      cases hpay
    rw [payReward_eq htax hreward hpaid hoperator hcreatable hnumber] at hpay
    split at hpay
    case h_1 => cases hpay
    case h_2 => cases hpay
    case h_3 locals domain hcredit =>
      obtain ⟨hown, hlockable⟩ := creditReward_some_iff.mp ⟨locals, domain, hcredit⟩
      rw [hsame.1] at hlockable
      exact ⟨hoperator, hcreatable, hnumber, fun h => hown (hsame.2.mpr h), hlockable⟩
  · rintro ⟨hoperator, hcreatable, hnumber, hown, hlockable⟩
    rw [← hsame.1] at hlockable
    obtain ⟨locals, domain, hcredit⟩ := creditReward_some_iff.mpr ⟨fun h => hown (hsame.2.mp h), hlockable⟩
    rw [payReward_eq htax hreward hpaid hoperator hcreatable hnumber, hcredit]
    exact ⟨_, _, rfl⟩

theorem paidOut_of_payReward {locals' : RewardLocals}
    (hpay : payReward S block receiptID {} change st = .ok (.proceed locals', st')) :
    PaidOut S st.ledger st'.ledger change.address tax paid := by
  obtain ⟨hoperator, hcreatable, hnumber, -, -⟩ :=
    (payReward_proceeds_iff htax hreward hpaid).mp ⟨locals', st', hpay⟩
  rw [payReward_eq htax hreward hpaid hoperator hcreatable hnumber] at hpay
  split at hpay
  case h_1 => cases hpay
  case h_2 => cases hpay
  case h_3 locals domain hcredit =>
    cases hpay
    exact ⟨domain, getBalance_creditReward hcredit, rfl⟩

end Turn

/-- The only result of a turn that ends the loop is a refusal. -/
theorem payRewards_valid_iff : payRewards S block receiptID {} [change] st = .ok (.valid, st') ↔
    ∃ locals', payReward S block receiptID {} change st = .ok (.proceed locals', st') := by
  have hdone : ∀ st'', payReward S block receiptID {} change st ≠ .ok (.done .valid, st'') := by
    intro st'' hpay
    unfold payReward at hpay
    split_ifs at hpay with hoperator
    · cases hpay
    · split at hpay
      case h_1 => cases hpay
      case h_2 =>
        dsimp only at hpay
        split at hpay
        case h_1 => cases hpay
        case h_2 =>
          split_ifs at hpay with hagrees
          · cases hpay
          · split at hpay
            case h_1 => cases hpay
            case h_2 =>
              split at hpay
              case h_1 => cases hpay
              case h_2 => cases hpay
              case h_3 => cases hpay
  unfold payRewards
  cases hpay : payReward S block receiptID {} change st with
  | error e => exact iff_of_false nofun nofun
  | ok outcome =>
      obtain ⟨step, st''⟩ := outcome
      cases step with
      | proceed locals =>
          unfold payRewards
          constructor
          · intro h
            cases h
            exact ⟨locals, rfl⟩
          · rintro ⟨locals', h⟩
            cases h
            rfl
      | done result =>
          refine iff_of_false ?_ nofun
          intro h
          cases h
          exact hdone _ hpay

/-! ### What is credited -/

/-- What the treasury gains. -/
def taxGain (S : RewardServices Trie) (l : Ledger) (address : Bytes) (tax : BigInt) : ℤ :=
  if ((l.withDomain address).findByID S.getTreasuryDomainID).isSome then
    raised (l.domainOf S.getTreasuryDomainID).getBalance tax
  else 0

/-- What the beneficiary gains, after the treasury. -/
def paidGain (S : RewardServices Trie) (l : Ledger) (address : Bytes) (tax paid : BigInt) : ℤ :=
  raised ((taxed S (l.withDomain address) tax).domainOf address).getBalance paid

theorem taxGain_le (l : Ledger) (address : Bytes) (tax : BigInt) : taxGain S l address tax ≤ tax.toNat := by
  unfold taxGain
  split_ifs
  · exact raised_le _ _
  · exact Int.natCast_nonneg _

/-- The treasury gains all of the tax exactly if it can be paid. -/
theorem taxGain_eq_iff (hnumber : (st.ledger.domainOf S.getTreasuryDomainID).assetType ≠ .unsignedInteger) :
    taxGain S st.ledger address tax = tax.toNat ↔ TaxPayable S st address tax := by
  unfold taxGain
  split_ifs with hfound
  · rw [raised_eq_iff]
    rw [Ledger.isSome_withDomain] at hfound
    exact ⟨fun hroom => ⟨hfound.imp_right .inr, hnumber, hroom⟩, TaxPayable.room⟩
  · rw [Ledger.isSome_withDomain, not_or] at hfound
    obtain ⟨hmissing, hother⟩ := hfound
    have hnew : st.ledger.domainOf S.getTreasuryDomainID = {} := by
      rw [Ledger.domainOf, Option.not_isSome_iff_eq_none.mp hmissing, Option.getD_none]
    constructor
    · intro hnone
      have hzero : tax = 0 := BitVec.eq_of_toNat_eq (by
        have : (0 : BigInt).toNat = 0 := rfl
        omega)
      refine ⟨.inr (.inl hzero), hnumber, ?_⟩
      rw [hnew, hzero]
      decide
    · rintro ⟨hpresent | rfl | hsame, -, -⟩
      · exact absurd hpresent hmissing
      · rfl
      · exact absurd hsame hother

theorem credited_of_number {d : StateDomain} (hnumber : d.assetType ≠ .unsignedInteger) (R : BigInt) :
    d.credited R = raised d.getBalance R := if_neg hnumber

theorem Ledger.Readable.withDomain (hread : l.Readable) (id : Bytes) : (l.withDomain id).Readable :=
  hread.save (hread.domainOf id) id

theorem Ledger.Readable.taxed (hread : l.Readable) (tax : BigInt) : (taxed S l tax).Readable := by
  unfold Gridnet.taxed
  split_ifs
  · exact hread.save ((hread.domainOf _).credit _) _
  · exact hread

theorem gains_taxed (hread : l.Readable) (hnumber : (l.domainOf S.getTreasuryDomainID).assetType ≠ .unsignedInteger)
    (address : Bytes) (tax : BigInt) :
    (l.withDomain address).Gains (taxed S (l.withDomain address) tax) (Ledger.addressOf S.getTreasuryDomainID)
      (taxGain S l address tax) := by
  unfold taxed taxGain
  split_ifs with hfound
  · apply Ledger.gains_save
    rw [Ledger.domainOf_withDomain, StateDomain.credit, StateDomain.getBalance_credit (hread.domainOf _),
      credited_of_number hnumber, ← Ledger.getBalance_domainOf, Ledger.domainOf_withDomain]
  · intro b
    simp

/-- The balances after a reward was paid. -/
theorem PaidOut.total (hread : l.Readable) (hcreditable : Creditable S block l address paid)
    (hpaid : PaidOut S l l' address tax paid) (s : Finset Bytes) :
    l'.total s = l.total s +
      (if Ledger.addressOf S.getTreasuryDomainID ∈ s then taxGain S l address tax else 0) +
      if Ledger.addressOf address ∈ s then paidGain S l address tax paid else 0 := by
  obtain ⟨d', hbalance, rfl⟩ := hpaid
  have hbefore : (l.withDomain address).total s = l.total s := by
    rw [(l.gains_withDomain address).total s, ite_self, add_zero]
  have hnumber : ((taxed S (l.withDomain address) tax).domainOf address).assetType ≠ .unsignedInteger := by
    rw [ne_eq, (domainOf_taxed _ _ _).2, Ledger.domainOf_withDomain]
    exact hcreditable.number
  have hgains : (taxed S (l.withDomain address) tax).Gains
      ((taxed S (l.withDomain address) tax).save address d') (Ledger.addressOf address)
      (paidGain S l address tax paid) := by
    apply Ledger.gains_save
    rw [hbalance, StateDomain.credit,
      StateDomain.getBalance_credit (((hread.withDomain address).taxed tax).domainOf address),
      credited_of_number hnumber, ← Ledger.getBalance_domainOf]
    rfl
  rw [hgains.total s, (gains_taxed hread hcreditable.treasuryNumber address tax).total s, hbefore]

/-- The balance that the reward is added to. -/
theorem getBalance_taxed (hread : l.Readable)
    (hnumber : (l.domainOf S.getTreasuryDomainID).assetType ≠ .unsignedInteger)
    (htax : taxGain S l address tax = tax.toNat) :
    ((taxed S (l.withDomain address) tax).domainOf address).getBalance.toNat =
      (l.domainOf address).getBalance.toNat +
        if Ledger.addressOf address = Ledger.addressOf S.getTreasuryDomainID then tax.toNat else 0 := by
  have hgains := gains_taxed hread hnumber address tax (Ledger.addressOf address)
  rw [htax] at hgains
  rw [Ledger.getBalance_domainOf, ← Ledger.domainOf_withDomain l address, Ledger.getBalance_domainOf]
  split_ifs at hgains ⊢ <;> omega

/-- The sum of what both gain is the whole reward exactly if both are paid what is theirs. -/
theorem total_eq_iff (hread : st.ledger.Readable) (hcreditable : Creditable S block st.ledger address paid)
    (hpaid : PaidOut S st.ledger st'.ledger address tax paid) (hwhole : tax.toNat + paid.toNat = R.toNat) :
    st'.ledger.total {Ledger.addressOf block.mMinersID, Ledger.addressOf S.getTreasuryDomainID} =
        st.ledger.total {Ledger.addressOf block.mMinersID, Ledger.addressOf S.getTreasuryDomainID} + R.toNat ↔
      TaxPayable S st address tax ∧ BeneficiaryPayable S block st address tax paid := by
  have htaxLe := taxGain_le (S := S) st.ledger address tax
  have hpaidLe : paidGain S st.ledger address tax paid ≤ paid.toNat := raised_le _ _
  have htreasury : Ledger.addressOf S.getTreasuryDomainID ∈
      ({Ledger.addressOf block.mMinersID, Ledger.addressOf S.getTreasuryDomainID} : Finset Bytes) := by simp
  have hbeneficiary : Ledger.addressOf address ∈
        ({Ledger.addressOf block.mMinersID, Ledger.addressOf S.getTreasuryDomainID} : Finset Bytes) ↔
      Ledger.addressOf address = Ledger.addressOf block.mMinersID ∨
        Ledger.addressOf address = Ledger.addressOf S.getTreasuryDomainID := by simp
  have hroom : taxGain S st.ledger address tax = tax.toNat →
      (paidGain S st.ledger address tax paid = paid.toNat ↔
        (st.ledger.domainOf address).getBalance.toNat + paid.toNat +
          (if Ledger.addressOf address = Ledger.addressOf S.getTreasuryDomainID then tax.toNat else 0) < 2 ^ 256) := by
    intro htax
    rw [paidGain, raised_eq_iff, getBalance_taxed hread hcreditable.treasuryNumber htax, Nat.add_right_comm]
  rw [hpaid.total hread hcreditable, if_pos htreasury]
  constructor
  · intro htotal
    have htax : taxGain S st.ledger address tax = tax.toNat := by
      split_ifs at htotal <;> omega
    refine ⟨(taxGain_eq_iff hcreditable.treasuryNumber).mp htax, hcreditable.creatable, hcreditable.number, ?_,
      hcreditable.lockable, ?_⟩
    · apply (hroom htax).mp
      split_ifs at htotal with hthere
      · omega
      · have hnone : paid = 0 := BitVec.eq_of_toNat_eq (by
          have hzero : (0 : BigInt).toNat = 0 := rfl
          omega)
        rw [hnone]
        exact raised_of_lt (BitVec.isLt _)
    · split_ifs at htotal with hthere
      · exact (hbeneficiary.mp hthere).imp_right .inl
      · refine .inr (.inr (BitVec.eq_of_toNat_eq ?_))
        have hzero : (0 : BigInt).toNat = 0 := rfl
        omega
  · rintro ⟨htaxPayable, hpayable⟩
    have htax := (taxGain_eq_iff hcreditable.treasuryNumber).mpr htaxPayable
    have hgain := (hroom htax).mpr hpayable.room
    split_ifs with hthere
    · omega
    · rcases hpayable.operator with hown | hown | rfl
      · exact absurd (hbeneficiary.mpr (.inl hown)) hthere
      · exact absurd (hbeneficiary.mpr (.inr hown)) hthere
      · have hzero : (0 : BigInt).toNat = 0 := rfl
        omega

/-- Processing of a reward that was accepted goes on to the payment exactly if it is armed and the treasury is there,
or nobody has mined yet. -/
theorem processVerifiable_valid_iff (htype : v.mVerifiableType = .minerReward) (hcopied : armed.copied = v.copied)
    (harmedType : armed.mVerifiableType = v.mVerifiableType)
    (haccepts : verifyActuateAndArm S.toVerifiableServices chain st.mInFlowLinks block v.copied
      st.rewardValidatedUpToNow = .ok (some armed)) :
    (∃ receipt, processVerifiable S chain keyHeight block armed receiptID st = .ok (receipt, st') ∧
        receipt.mResult = .valid) ↔
      ((st.ledger.findByID S.getTreasuryDomainID).isSome = true ∨ keyHeight = 0) ∧ armed.isArmed = true ∧
        payRewards S block (verifiableReceiptID S armed.toCVerifiable receiptID) {} armed.getAffectedStateDomains st =
          .ok (.valid, st') := by
  have hallowed : ¬allowedInBlock block.isKeyBlock armed.mVerifiableType = false := by
    rw [harmedType, htype]
    exact nofun
  unfold processVerifiable verifiableResult
  dsimp only
  rw [if_neg hallowed, hcopied, haccepts]
  dsimp only
  split_ifs with htreasury harmed
  · refine iff_of_false ?_ ?_
    · rintro ⟨receipt, hprocess, hvalid⟩
      cases hprocess
      cases hvalid
    · rintro ⟨hpresent | hfirst, -, -⟩
      · rw [Option.isNone_iff_eq_none] at htreasury
        rw [htreasury.1] at hpresent
        cases hpresent
      · exact htreasury.2 hfirst
  · refine iff_of_false ?_ ?_
    · rintro ⟨receipt, hprocess, -⟩
      cases hprocess
    · rintro ⟨-, hisArmed, -⟩
      exact absurd (harmed.symm.trans hisArmed) nofun
  · have hpresent : (st.ledger.findByID S.getTreasuryDomainID).isSome = true ∨ keyHeight = 0 := by
      rw [Option.isNone_iff_eq_none, not_and_or, not_not] at htreasury
      exact htreasury.imp_left Option.isSome_iff_ne_none.mpr
    have hissue : issueVerifiable S block armed (verifiableReceiptID S armed.toCVerifiable receiptID) st =
        payRewards S block (verifiableReceiptID S armed.toCVerifiable receiptID) {} armed.getAffectedStateDomains
          st := by
      rw [issueVerifiable, harmedType, htype]
    rw [hissue]
    cases hpay : payRewards S block (verifiableReceiptID S armed.toCVerifiable receiptID) {}
        armed.getAffectedStateDomains st with
    | error e =>
        refine iff_of_false ?_ ?_
        · rintro ⟨receipt, hprocess, -⟩
          cases hprocess
        · rintro ⟨-, -, hvalid⟩
          cases hvalid
    | ok outcome =>
        obtain ⟨result, st''⟩ := outcome
        constructor
        · rintro ⟨receipt, hprocess, hvalid⟩
          cases hprocess
          obtain rfl : result = .valid := hvalid
          exact ⟨hpresent, Bool.of_not_eq_false harmed, rfl⟩
        · rintro ⟨-, -, hvalid⟩
          cases hvalid
          exact ⟨_, rfl, rfl⟩

/-- **A reward that is accepted pays exactly what was validated if and only if it is armed and everybody can be
paid.** -/
theorem paysExactly_iff (hread : st.ledger.Readable) (htype : v.mVerifiableType = .minerReward)
    (haccepts : verifyActuateAndArm S.toVerifiableServices chain st.mInFlowLinks block v.copied
      st.rewardValidatedUpToNow = .ok (some armed)) :
    PaysExactly S chain keyHeight block armed receiptID st st.rewardValidatedUpToNow ↔
      RewardPayable S keyHeight block v st st.rewardValidatedUpToNow := by
  have hverified : verifyMinerReward S.toVerifiableServices block v.copied st.rewardValidatedUpToNow =
      some armed := by
    have hcopiedType : v.copied.mVerifiableType = .minerReward := htype
    rw [verifyActuateAndArm, hcopiedType] at haccepts
    exact Except.ok.inj haccepts
  obtain ⟨change, hchange, hagrees, hdomains, hcopied, harmedType, harmed⟩ := verifyMinerReward_some hverified
  have hprocess : ∀ st', (∃ receipt, processVerifiable S chain keyHeight block armed receiptID st = .ok (receipt, st') ∧
      receipt.mResult = .valid) ↔ _ :=
    fun st' => processVerifiable_valid_iff htype hcopied harmedType haccepts
  simp only [hdomains, payRewards_valid_iff] at hprocess
  let tax := formationTax (S.getMiningTax block.keyHeight) st.rewardValidatedUpToNow
  let paid := st.rewardValidatedUpToNow - tax
  have htax : taxOn (S.getMiningTax block.keyHeight)
      (BalanceChange.mk change.address st.rewardValidatedUpToNow.toNat).pendingPreTaxBalanceChange 0 = tax :=
    taxOn_eq_formationTax _ _
  have hreward : rewardAfterTax
      (BalanceChange.mk change.address st.rewardValidatedUpToNow.toNat).pendingPreTaxBalanceChange tax = paid :=
    rewardAfterTax_eq _ _
  have hpaid : block.isCheckpointed = false → block.getPaidToMiner = paid :=
    fun hplain => (header_of_rewardAgrees (hagrees hplain)).2
  have hwhole : tax.toNat + paid.toNat = st.rewardValidatedUpToNow.toNat := formationTax_add _ _
  constructor
  · rintro ⟨hisArmed, ⟨receipt, st', hrun, hvalid, htotal⟩, -, -⟩
    obtain ⟨htreasury, -, locals', hpay⟩ := (hprocess st').mp ⟨receipt, hrun, hvalid⟩
    have hcreditable := (payReward_proceeds_iff htax hreward hpaid).mp ⟨locals', st', hpay⟩
    have hpaidOut := paidOut_of_payReward htax hreward hpaid hpay
    obtain ⟨htaxPayable, hpayable⟩ := (total_eq_iff hread hcreditable hpaidOut hwhole).mp htotal
    refine ⟨harmed.mp hisArmed, hcreditable.operator, htreasury, ?_, ?_⟩
    · rw [hchange]
      exact List.forall_mem_singleton.mpr htaxPayable
    · rw [hchange]
      exact List.forall_mem_singleton.mpr hpayable
  · rintro ⟨hisArmed, hoperator, htreasury, htaxPayable, hpayable⟩
    rw [hchange] at htaxPayable hpayable
    have htaxPayable := List.forall_mem_singleton.mp htaxPayable
    have hpayable := List.forall_mem_singleton.mp hpayable
    have hcreditable : Creditable S block st.ledger change.address paid :=
      ⟨hoperator, hpayable.creatable, htaxPayable.number, hpayable.number, hpayable.lockable⟩
    obtain ⟨locals', st', hpay⟩ := (payReward_proceeds_iff htax hreward hpaid).mpr hcreditable
    obtain ⟨receipt, hrun, hvalid⟩ := (hprocess st').mpr ⟨htreasury, harmed.mpr hisArmed, locals', hpay⟩
    have hpaidOut := paidOut_of_payReward htax hreward hpaid hpay
    have htotal := (total_eq_iff hread hcreditable hpaidOut hwhole).mpr ⟨htaxPayable, hpayable⟩
    exact ⟨harmed.mpr hisArmed, ⟨receipt, st', hrun, hvalid, htotal⟩,
      fun hplain => header_of_rewardAgrees (hagrees hplain), fun rate => taxOn_eq_formationTax rate _⟩

end Payment

/-! ### A reward of 1000, of which the treasury takes 100 -/

section Sample

/-- The node with the log of the verifier turned on. -/
def loggingRewards : RewardServices Bytes :=
  { sampleRewards with ENABLE_FLOW_DETAILED_LOGS_VERIFIER := true }

def sampleRewardedBlock : RewardedBlock where
  height := 5
  keyHeight := 3
  mMinersID := sampleAddress 1
  mTotalReward := 1000
  mPaidToLeader := 900

def sampleReward : PoolVerifiable where
  mVerifiableType := .minerReward
  mAffectedDomains := [⟨sampleAddress 1, 1000⟩]

/-- There is a treasury, and the operator is new. -/
def sampleTreasury : RewardState where
  ledger := Ledger.save (fun _ => none) (sampleAddress 3) { assetType := .BigInt, assetValue := 7 }
  rewardValidatedUpToNow := 1000

theorem sampleTreasury_readable : sampleTreasury.ledger.Readable := by
  have hempty : Ledger.Readable fun _ => none := nofun
  have htreasury : StateDomain.Readable { assetType := .BigInt, assetValue := 7 } :=
    fun hnoData => absurd hnoData (by decide)
  exact hempty.save htreasury _

theorem sampleReward_accepted : verifyActuateAndArm loggingRewards.toVerifiableServices sampleChain []
    sampleRewardedBlock sampleReward.copied 1000 =
      .ok (some (sampleReward.copied.armBalanceChange (sampleAddress 1) 1000)) := by
  rfl

theorem sampleReward_paysExactly : PaysExactly loggingRewards sampleChain 3 sampleRewardedBlock
    (sampleReward.copied.armBalanceChange (sampleAddress 1) 1000) [] sampleTreasury 1000 := by
  refine (paysExactly_iff sampleTreasury_readable rfl sampleReward_accepted).mpr
    ⟨.inr (.inr rfl), by decide, .inl (by decide), ?_, ?_⟩
  · rw [show sampleReward.mAffectedDomains = [⟨sampleAddress 1, 1000⟩] from rfl]
    exact List.forall_mem_singleton.mpr ⟨.inl (by decide), by decide, by decide⟩
  · rw [show sampleReward.mAffectedDomains = [⟨sampleAddress 1, 1000⟩] from rfl]
    exact List.forall_mem_singleton.mpr ⟨.inr (by decide), by decide, by decide, ⟨_, rfl⟩, .inl rfl⟩

/-- Without the log the same reward is accepted, and not armed. -/
theorem accepted_reward_not_armed :
    verifyActuateAndArm sampleRewards.toVerifiableServices sampleChain [] sampleRewardedBlock sampleReward.copied 1000 =
        .ok (some sampleReward.copied) ∧
      ¬PaysExactly sampleRewards sampleChain 3 sampleRewardedBlock sampleReward.copied [] sampleTreasury 1000 :=
  ⟨rfl, fun hpays => absurd hpays.isArmed nofun⟩

end Sample

end Gridnet
