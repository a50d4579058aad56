import Gridnet.Balances
import Gridnet.FraudProofs
import Gridnet.VerifiableProcessing

/-! The money that a proof of fraud moves. The penalty is no more than the operator has, while the
reporter and the leader of the block are each credited the configured reward, whatever was taken. -/

namespace Gridnet

section Penalty

variable {Trie : Type} (S : RewardServices Trie)

theorem penaltyOf_toNat (balance : BigInt) :
    (penaltyOf S balance).toNat = min balance.toNat S.getPenaltyForPoF.toNat := by
  unfold penaltyOf
  split_ifs with hless
  · exact (Nat.min_eq_left (BitVec.lt_def.mp hless).le).symm
  · exact (Nat.min_eq_right (Nat.le_of_not_lt fun h => hless (BitVec.lt_def.mpr h))).symm

/-- The penalty that was taken: all of it, if the balance is a number, and else nothing. -/
def takenFrom (domain : StateDomain) : ℤ :=
  if domain.assetType = .BigInt then
    ((min domain.getBalance.toNat S.getPenaltyForPoF.toNat : ℕ) : ℤ)
  else 0

variable {S} {receiptID operatorID reporterID : Bytes} {domain : StateDomain}

/-- The unsigned `-1 * penalty` takes the penalty off a balance that is a number. -/
theorem getBalance_penalize (hread : domain.Readable) (hfunded : domain.getBalance ≠ 0) :
    ((penalize S receiptID reporterID domain).2.getBalance.toNat : ℤ) =
      domain.getBalance.toNat - takenFrom S domain := by
  show ((((domain.changeBalanceBy (-penaltyOf S domain.getBalance).toNat).getD
    domain).getBalance.toNat : ℕ) : ℤ) = _
  cases htype : domain.assetType with
  | BigInt =>
      have htaken : takenFrom S domain =
          ((min domain.getBalance.toNat S.getPenaltyForPoF.toNat : ℕ) : ℤ) := if_pos htype
      have hpenalty := penaltyOf_toNat S domain.getBalance
      have hle : (penaltyOf S domain.getBalance).toNat ≤ domain.getBalance.toNat := by
        rw [hpenalty]
        exact Nat.min_le_left _ _
      rw [StateDomain.changeBalanceBy_bigInt htype, Option.getD_some, htaken]
      show ((domain.getBalance + -penaltyOf S domain.getBalance).toNat : ℤ) = _
      rw [← BitVec.sub_eq_add_neg, BitVec.toNat_sub_of_le hle, hpenalty]
      omega
  | noData => exact absurd (hread htype) hfunded
  | unsignedInteger =>
      have htaken : takenFrom S domain = 0 := if_neg (by rw [htype]; decide)
      rw [StateDomain.changeBalanceBy_unsigned htype, Option.getD_none, htaken]
      omega

/-- A penalized domain has a variable for its balance. -/
theorem readable_penalize (hread : domain.Readable) (hfunded : domain.getBalance ≠ 0) :
    (penalize S receiptID reporterID domain).2.Readable := by
  intro hnoData
  change ((domain.changeBalanceBy (-penaltyOf S domain.getBalance).toNat).getD
    domain).assetType = .noData at hnoData
  cases htype : domain.assetType with
  | BigInt =>
      rw [StateDomain.changeBalanceBy_bigInt htype, Option.getD_some] at hnoData
      exact absurd (htype.symm.trans hnoData) (by decide)
  | noData => exact absurd (hread htype) hfunded
  | unsignedInteger =>
      rw [StateDomain.changeBalanceBy_unsigned htype, Option.getD_none, htype] at hnoData
      cases hnoData

/-! ### What processing leaves -/

/-- The reporter's domain when it is credited: behind the penalty, and new if there was none. -/
def reporterBefore (S : RewardServices Trie) (l : Ledger) (receiptID operatorID reporterID : Bytes)
    (domain : StateDomain) : StateDomain :=
  ((l.save operatorID (penalize S receiptID reporterID domain).2).findByID reporterID).getD {}

/-- What a proof of fraud that was processed has done: the operator was penalized, the reporter
credited, and the reward added to what the leader of the block is to receive. -/
structure FraudSettled (S : RewardServices Trie) (receiptID operatorID reporterID : Bytes)
    (domain : StateDomain) (st st' : RewardState) : Prop where
  operator : st.ledger.findByID operatorID = some domain
  funded : domain.getBalance ≠ 0
  ledger : st'.ledger =
    (st.ledger.save operatorID (penalize S receiptID reporterID domain).2).save reporterID
      (rewardReporter S (penalize S receiptID reporterID domain).1 receiptID operatorID
        (reporterBefore S st.ledger receiptID operatorID reporterID domain))
  reward : st'.rewardValidatedUpToNow = st.rewardValidatedUpToNow + S.getRewardForPoFProcessing

theorem findOrCreate_ok {l l' : Ledger} {address : Bytes} {found : StateDomain}
    (hfound : findOrCreate S l address = .ok (found, l')) :
    found = (l.findByID address).getD {} ∧ ∀ d, l'.save address d = l.save address d := by
  unfold findOrCreate at hfound
  cases hdomain : l.findByID address with
  | none =>
      rw [hdomain] at hfound
      dsimp only at hfound
      split_ifs at hfound
      cases hfound
      exact ⟨rfl, fun d => Ledger.save_save ..⟩
  | some domain =>
      rw [hdomain] at hfound
      cases hfound
      exact ⟨rfl, fun d => rfl⟩

/-- A proof of fraud is processed, or it changes nothing. -/
theorem processProofOfFraud_cases {ver : CVerifiable} {st st' : RewardState}
    {result : eTransactionValidationResult}
    (hprocess : processProofOfFraud S ver receiptID st = .ok (result, st')) :
    result = .invalid ∧ st' = st ∨
      result = .valid ∧ ∃ proof domain,
        getPoFProof S.toVerifiableServices ver.mProof = some proof ∧
        FraudSettled S receiptID (getMinersID S.toVerifiableServices proof.kbHeader)
          (S.node.genAddress ver.mPubKey).2 domain st st' := by
  unfold processProofOfFraud at hprocess
  cases hproof : getPoFProof S.toVerifiableServices ver.mProof with
  | none =>
      rw [hproof] at hprocess
      cases hprocess
      exact Or.inl ⟨rfl, rfl⟩
  | some proof =>
      rw [hproof] at hprocess
      dsimp only at hprocess
      by_cases hkey : ver.mPubKey.length = 32
      swap
      · rw [if_pos hkey] at hprocess
        cases hprocess
        exact Or.inl ⟨rfl, rfl⟩
      rw [if_neg (not_not_intro hkey)] at hprocess
      cases hoperator : st.ledger.findByID (getMinersID S.toVerifiableServices proof.kbHeader) with
      | none =>
          rw [hoperator] at hprocess
          cases hprocess
          exact Or.inl ⟨rfl, rfl⟩
      | some domain =>
          rw [hoperator] at hprocess
          dsimp only at hprocess
          by_cases hfunded : domain.getBalance = 0
          · rw [if_pos hfunded] at hprocess
            cases hprocess
            exact Or.inl ⟨rfl, rfl⟩
          rw [if_neg hfunded] at hprocess
          split at hprocess
          · cases hprocess
          · rename_i reporter l hfound
            obtain ⟨hreporter, hsaved⟩ := findOrCreate_ok hfound
            split at hprocess
            · cases hprocess
            · split at hprocess
              · cases hprocess
              · cases hprocess
                refine Or.inr ⟨rfl, proof, domain, rfl, ⟨hoperator, hfunded, ?_, rfl⟩⟩
                rw [hsaved, hreporter]
                rfl

/-- A proof of fraud is processed where it is verified once more, and changes nothing elsewhere. -/
theorem processVerifiable_proofOfFraud {chain : ChainView} {keyHeight : UInt64} {block : RewardedBlock}
    {ver : PoolVerifiable} {st st' : RewardState} {receipt : CReceipt}
    (htype : ver.mVerifiableType = .proofOfFraud)
    (hprocess : processVerifiable S chain keyHeight block ver receiptID st = .ok (receipt, st')) :
    receipt.mResult = .invalid ∧ st' = st ∨
      (∃ armed, verifyProofOfFraud S.toVerifiableServices chain st.mInFlowLinks ver.copied = .ok (some armed)) ∧
        processProofOfFraud S ver.toCVerifiable (verifiableReceiptID S ver.toCVerifiable receiptID) st =
          .ok (receipt.mResult, st') := by
  unfold processVerifiable at hprocess
  dsimp only at hprocess
  generalize verifiableReceiptID S ver.toCVerifiable receiptID = receiptID' at hprocess ⊢
  cases hresult : verifiableResult S chain keyHeight block ver receiptID' st with
  | error e =>
      rw [hresult] at hprocess
      cases hprocess
  | ok outcome =>
      obtain ⟨result, st₁⟩ := outcome
      rw [hresult] at hprocess
      cases hprocess
      have hcopied : ver.copied.mVerifiableType = .proofOfFraud := htype
      unfold verifiableResult at hresult
      split_ifs at hresult
      · cases hresult
        exact Or.inl ⟨rfl, rfl⟩
      · cases hresult
        exact Or.inl ⟨rfl, rfl⟩
      rw [verifyActuateAndArm_proofOfFraud hcopied] at hresult
      split at hresult
      · cases hresult
      · cases hresult
        exact Or.inl ⟨rfl, rfl⟩
      · rename_i armed harmed
        split_ifs at hresult
        rw [armed_of_verifyProofOfFraud harmed, issueVerifiable] at hresult
        have harmedType : ver.copied.arm.mVerifiableType = .proofOfFraud := htype
        rw [harmedType] at hresult
        exact Or.inr ⟨⟨armed, harmed⟩, hresult⟩

/-- The same of `processVerifiable`, behind the verification. -/
theorem processVerifiable_fraud {chain : ChainView} {keyHeight : UInt64} {block : RewardedBlock}
    {ver : PoolVerifiable} {st st' : RewardState} {receipt : CReceipt}
    (htype : ver.mVerifiableType = .proofOfFraud)
    (hprocess : processVerifiable S chain keyHeight block ver receiptID st = .ok (receipt, st')) :
    receipt.mResult = .invalid ∧ st' = st ∨
      receipt.mResult = .valid ∧ ∃ proof domain,
        getPoFProof S.toVerifiableServices ver.mProof = some proof ∧
        FraudSettled S (verifiableReceiptID S ver.toCVerifiable receiptID)
          (getMinersID S.toVerifiableServices proof.kbHeader)
          (S.node.genAddress ver.mPubKey).2 domain st st' := by
  rcases processVerifiable_proofOfFraud htype hprocess with hinvalid | ⟨-, hsettles⟩
  · exact Or.inl hinvalid
  · exact processProofOfFraud_cases hsettles

/-! ### No money out of thin air -/

/-- The proof of fraud took the penalty from the operator, and no more was credited to the reporter and
added to the reward of the leader. -/
structure NoMoneyCreated (S : RewardServices Trie) (receiptID operatorID reporterID : Bytes)
    (domain : StateDomain) (st st' : RewardState) : Prop where
  penalty : ((penalize S receiptID reporterID domain).2.getBalance.toNat : ℤ) =
    domain.getBalance.toNat - min domain.getBalance.toNat S.getPenaltyForPoF.toNat
  total : ∀ s : Finset Bytes, Ledger.addressOf operatorID ∈ s → Ledger.addressOf reporterID ∈ s →
    st'.ledger.total s + (st'.rewardValidatedUpToNow.toNat - st.rewardValidatedUpToNow.toNat : ℤ) ≤
      st.ledger.total s

/-- The penalty can be taken, and it covers what both rewards add. -/
structure Covered (S : RewardServices Trie) (receiptID operatorID reporterID : Bytes)
    (domain : StateDomain) (st : RewardState) : Prop where
  number : domain.assetType = .BigInt ∨ S.getPenaltyForPoF = 0
  covers : (reporterBefore S st.ledger receiptID operatorID reporterID domain).credited
        S.getRewardForPoFProcessing +
      raised st.rewardValidatedUpToNow S.getRewardForPoFProcessing ≤
    min domain.getBalance.toNat S.getPenaltyForPoF.toNat

variable {st st' : RewardState}

theorem readable_reporterBefore (hread : st.ledger.Readable)
    (hsettled : FraudSettled S receiptID operatorID reporterID domain st st') :
    (reporterBefore S st.ledger receiptID operatorID reporterID domain).Readable := by
  have hoperator := hread _ _ hsettled.operator
  unfold reporterBefore Ledger.findByID
  by_cases hself : Ledger.addressOf reporterID = Ledger.addressOf operatorID
  · rw [hself, Ledger.save_self, Option.getD_some]
    exact readable_penalize hoperator hsettled.funded
  · rw [Ledger.save_of_ne _ _ hself]
    cases hreporter : st.ledger (Ledger.addressOf reporterID) with
    | none => exact fun _ => rfl
    | some reporter => exact hread _ _ hreporter

/-- What the total loses is the penalty that was taken, and what it gains is the reporter's credit. -/
theorem FraudSettled.total (hread : st.ledger.Readable)
    (hsettled : FraudSettled S receiptID operatorID reporterID domain st st') {s : Finset Bytes}
    (hoperator : Ledger.addressOf operatorID ∈ s) (hreporter : Ledger.addressOf reporterID ∈ s) :
    st'.ledger.total s = st.ledger.total s - takenFrom S domain +
      (reporterBefore S st.ledger receiptID operatorID reporterID domain).credited
        S.getRewardForPoFProcessing := by
  let l := st.ledger.save operatorID (penalize S receiptID reporterID domain).2
  let reporter := reporterBefore S st.ledger receiptID operatorID reporterID domain
  have hbefore : st.ledger.balanceAt (Ledger.addressOf operatorID) = domain.getBalance :=
    Ledger.balanceAt_of_some hsettled.operator
  have hfound : l.balanceAt (Ledger.addressOf reporterID) = reporter.getBalance := by
    show ((l (Ledger.addressOf reporterID)).map _).getD 0 =
      ((l (Ledger.addressOf reporterID)).getD {}).getBalance
    cases l (Ledger.addressOf reporterID) with
    | none => rfl
    | some d => rfl
  have htaken : st.ledger.Gains l (Ledger.addressOf operatorID) (-takenFrom S domain) := by
    refine Ledger.gains_save _ _ _ ?_
    rw [hbefore, getBalance_penalize (hread _ _ hsettled.operator) hsettled.funded]
    omega
  have hrewarded : l.Gains st'.ledger (Ledger.addressOf reporterID)
      (reporter.credited S.getRewardForPoFProcessing) := by
    rw [hsettled.ledger]
    refine Ledger.gains_save _ _ _ ?_
    rw [hfound]
    exact StateDomain.getBalance_credit (readable_reporterBefore hread hsettled) _
  rw [hrewarded.total s, htaken.total s, if_pos hoperator, if_pos hreporter, ← Int.sub_eq_add_neg]

/-- A proof of fraud that is settled creates no money exactly if the penalty covers both rewards. -/
theorem FraudSettled.noMoneyCreated_iff (hread : st.ledger.Readable)
    (hsettled : FraudSettled S receiptID operatorID reporterID domain st st') :
    NoMoneyCreated S receiptID operatorID reporterID domain st st' ↔
      Covered S receiptID operatorID reporterID domain st := by
  have hpenalized : ((penalize S receiptID reporterID domain).2.getBalance.toNat : ℤ) =
      domain.getBalance.toNat - takenFrom S domain :=
    getBalance_penalize (hread _ _ hsettled.operator) hsettled.funded
  have hgain : (st'.rewardValidatedUpToNow.toNat - st.rewardValidatedUpToNow.toNat : ℤ) =
      raised st.rewardValidatedUpToNow S.getRewardForPoFProcessing := by
    rw [hsettled.reward, raised]
  have hpositive : domain.getBalance.toNat ≠ 0 := fun hzero =>
    hsettled.funded (BitVec.eq_of_toNat_eq hzero)
  have hzeroNat : (0 : BigInt).toNat = 0 := rfl
  have hnumber : takenFrom S domain =
        ((min domain.getBalance.toNat S.getPenaltyForPoF.toNat : ℕ) : ℤ) ↔
      domain.assetType = .BigInt ∨ S.getPenaltyForPoF = 0 := by
    unfold takenFrom
    by_cases htype : domain.assetType = .BigInt
    · rw [if_pos htype]
      exact ⟨fun _ => Or.inl htype, fun _ => rfl⟩
    · rw [if_neg htype]
      constructor
      · intro hmin
        exact Or.inr (BitVec.eq_of_toNat_eq (by omega))
      · rintro (h | hzero)
        · exact absurd h htype
        · rw [hzero, hzeroNat, Nat.min_zero, Nat.cast_zero]
  constructor
  · rintro ⟨hpenalty, htotal⟩
    have htaken : takenFrom S domain =
        ((min domain.getBalance.toNat S.getPenaltyForPoF.toNat : ℕ) : ℤ) := by omega
    refine ⟨hnumber.mp htaken, ?_⟩
    have hsum := htotal {Ledger.addressOf operatorID, Ledger.addressOf reporterID}
      (Finset.mem_insert_self ..) (Finset.mem_insert_of_mem (Finset.mem_singleton_self _))
    rw [hsettled.total hread (Finset.mem_insert_self ..)
      (Finset.mem_insert_of_mem (Finset.mem_singleton_self _)), hgain, htaken] at hsum
    omega
  · rintro ⟨htype, hcovers⟩
    have htaken := hnumber.mpr htype
    refine ⟨by rw [hpenalized, htaken], fun s hoperator hreporter => ?_⟩
    rw [hsettled.total hread hoperator hreporter, hgain, htaken]
    omega

/-- Where the reporter's balance is a number and no sum wraps, the penalty has to be twice the reward. -/
theorem covered_iff_twice (htype : domain.assetType = .BigInt)
    (hreporter : (reporterBefore S st.ledger receiptID operatorID reporterID domain).assetType ≠
      .unsignedInteger)
    (hbalance : (reporterBefore S st.ledger receiptID operatorID reporterID domain).getBalance.toNat +
      S.getRewardForPoFProcessing.toNat < 2 ^ 256)
    (hreward : st.rewardValidatedUpToNow.toNat + S.getRewardForPoFProcessing.toNat < 2 ^ 256) :
    Covered S receiptID operatorID reporterID domain st ↔
      2 * S.getRewardForPoFProcessing.toNat ≤
        min domain.getBalance.toNat S.getPenaltyForPoF.toNat := by
  have hcredited := raised_of_lt hbalance
  have hraised := raised_of_lt hreward
  have hcredit : (reporterBefore S st.ledger receiptID operatorID reporterID domain).credited
      S.getRewardForPoFProcessing = S.getRewardForPoFProcessing.toNat := by
    rw [StateDomain.credited, if_neg hreporter, hcredited]
  constructor
  · rintro ⟨-, hcovers⟩
    rw [hcredit, hraised] at hcovers
    omega
  · intro htwice
    refine ⟨Or.inl htype, ?_⟩
    rw [hcredit, hraised]
    omega

/-- `processVerifiable` creates no money with a proof of fraud that it deems valid exactly if the
penalty covers both rewards. -/
theorem processVerifiable_noMoneyCreated_iff {chain : ChainView} {keyHeight : UInt64}
    {block : RewardedBlock} {ver : PoolVerifiable} {receipt : CReceipt}
    (hread : st.ledger.Readable) (htype : ver.mVerifiableType = .proofOfFraud)
    (hprocess : processVerifiable S chain keyHeight block ver receiptID st = .ok (receipt, st'))
    (hvalid : receipt.mResult = .valid) :
    ∃ proof domain, getPoFProof S.toVerifiableServices ver.mProof = some proof ∧
      st.ledger.findByID (getMinersID S.toVerifiableServices proof.kbHeader) = some domain ∧
      (NoMoneyCreated S (verifiableReceiptID S ver.toCVerifiable receiptID)
          (getMinersID S.toVerifiableServices proof.kbHeader) (S.node.genAddress ver.mPubKey).2 domain
          st st' ↔
        Covered S (verifiableReceiptID S ver.toCVerifiable receiptID)
          (getMinersID S.toVerifiableServices proof.kbHeader) (S.node.genAddress ver.mPubKey).2 domain
          st) := by
  rcases processVerifiable_fraud htype hprocess with
    ⟨hinvalid, -⟩ | ⟨-, proof, domain, hproof, hsettled⟩
  · exact absurd (hinvalid.symm.trans hvalid) (by decide)
  · exact ⟨proof, domain, hproof, hsettled.operator, hsettled.noMoneyCreated_iff hread⟩

end Penalty

section Sample

/-- A penalty of 100 and a reward of 80. -/
def sampleRewards : RewardServices Bytes where
  toVerifiableServices := sampleVerifiables
  values := memoryCodec
  getPenaltyForPoF := 100
  getRewardForPoFProcessing := 80
  getTreasuryDomainID := sampleAddress 3
  getMinersLockPeriod := 10
  blockRewardFlags := [1]
  fraudProcessingFlags := [2]
  getReceiptIDForVerifiable ver := fixedBytes 33 ver.mProof.length
  VarLengthDecodeVector _ stored := stored
  addNodeExt l a := (l.findByID a).isNone
  issueGenesisRewards _ l := .ok (.valid, l)

/-- The flow of a data block over the domains of the sample chain. -/
def sampleRewardState : RewardState := { ledger := sampleChain.liveDomains }

/-- There is no domain but the operator's. -/
theorem sampleRewardState_domain {a : Bytes} {d : StateDomain}
    (hd : sampleRewardState.ledger a = some d) :
    a = Ledger.addressOf (sampleServices.genAddress (List.replicate 32 7)).2 ∧
      d = { assetType := .BigInt, assetValue := 500 } := by
  change Ledger.save (fun _ => none) _ _ a = some d at hd
  by_cases haddress : a = Ledger.addressOf (sampleServices.genAddress (List.replicate 32 7)).2
  · rw [haddress, Ledger.save_self] at hd
    exact ⟨haddress, (Option.some.inj hd).symm⟩
  · rw [Ledger.save_of_ne _ _ haddress] at hd
    cases hd

theorem sampleRewardState_readable : sampleRewardState.ledger.Readable := by
  intro a d hd hnoData
  rw [(sampleRewardState_domain hd).2] at hnoData
  cases hnoData

/-- Something that is read of the outcome of a run on given data is evaluated. -/
theorem exists_ok_of_toOption {ε α β : Type} (run : Except ε α) (reading : α → β) {b : β}
    (hrun : run.toOption.map reading = some b) : ∃ a, run = .ok a ∧ reading a = b := by
  cases run with
  | error err => cases hrun
  | ok a => exact ⟨a, rfl, Option.some.inj hrun⟩

/-- The proof that a reporter made of the header of a key block is processed. -/
theorem forgedProof_processed : ∃ receipt st',
    processVerifiable sampleRewards sampleChain 0 {} forgedProof [] sampleRewardState =
      .ok (receipt, st') ∧ receipt.mResult = .valid := by
  have hvalid : (processVerifiable sampleRewards sampleChain 0 {} forgedProof [] sampleRewardState).toOption.map
      (fun processed => processed.1.mResult) = some .valid := by decide +kernel
  obtain ⟨processed, hprocess, hresult⟩ := exists_ok_of_toOption _ _ hvalid
  exact ⟨processed.1, processed.2, hprocess, hresult⟩

theorem forgedProof_type : forgedProof.mVerifiableType = .proofOfFraud := rfl

/-- The law for the sample, whose operator has 500: 100 are taken, and 80 and 80 are credited. -/
theorem sample_noMoneyCreated_iff : ∃ receipt st',
    processVerifiable sampleRewards sampleChain 0 {} forgedProof [] sampleRewardState =
      .ok (receipt, st') ∧
    ∃ proof domain, getPoFProof sampleRewards.toVerifiableServices forgedProof.mProof = some proof ∧
      sampleRewardState.ledger.findByID
        (getMinersID sampleRewards.toVerifiableServices proof.kbHeader) = some domain ∧
      (NoMoneyCreated sampleRewards (verifiableReceiptID sampleRewards forgedProof.toCVerifiable [])
          (getMinersID sampleRewards.toVerifiableServices proof.kbHeader)
          (sampleRewards.node.genAddress forgedProof.mPubKey).2 domain sampleRewardState st' ↔
        Covered sampleRewards (verifiableReceiptID sampleRewards forgedProof.toCVerifiable [])
          (getMinersID sampleRewards.toVerifiableServices proof.kbHeader)
          (sampleRewards.node.genAddress forgedProof.mPubKey).2 domain sampleRewardState) := by
  obtain ⟨receipt, st', hprocess, hvalid⟩ := forgedProof_processed
  exact ⟨receipt, st', hprocess, processVerifiable_noMoneyCreated_iff sampleRewardState_readable
    forgedProof_type hprocess hvalid⟩

/-- More is credited than was taken. -/
theorem money_created : ∃ receipt st',
    processVerifiable sampleRewards sampleChain 0 {} forgedProof [] sampleRewardState =
      .ok (receipt, st') ∧ receipt.mResult = .valid ∧
    ∃ proof domain, getPoFProof sampleRewards.toVerifiableServices forgedProof.mProof = some proof ∧
      sampleRewardState.ledger.findByID
        (getMinersID sampleRewards.toVerifiableServices proof.kbHeader) = some domain ∧
      ¬NoMoneyCreated sampleRewards (verifiableReceiptID sampleRewards forgedProof.toCVerifiable [])
        (getMinersID sampleRewards.toVerifiableServices proof.kbHeader)
        (sampleRewards.node.genAddress forgedProof.mPubKey).2 domain sampleRewardState st' := by
  obtain ⟨receipt, st', hprocess, hvalid⟩ := forgedProof_processed
  rcases processVerifiable_fraud forgedProof_type hprocess with
    ⟨hinvalid, -⟩ | ⟨-, proof, domain, hproof, hsettled⟩
  · exact absurd (hinvalid.symm.trans hvalid) (by decide)
  refine ⟨receipt, st', hprocess, hvalid, proof, domain, hproof, hsettled.operator, fun hlaw => ?_⟩
  obtain ⟨hoperator, hdomain⟩ := sampleRewardState_domain hsettled.operator
  have hother : Ledger.addressOf (sampleRewards.node.genAddress forgedProof.mPubKey).2 ≠
      Ledger.addressOf (getMinersID sampleRewards.toVerifiableServices proof.kbHeader) := by
    rw [hoperator]
    decide
  have hmissing : sampleRewardState.ledger
      (Ledger.addressOf (sampleRewards.node.genAddress forgedProof.mPubKey).2) = none :=
    Option.eq_none_iff_forall_ne_some.mpr fun d hd =>
      hother ((sampleRewardState_domain hd).1.trans hoperator.symm)
  have hreporter : reporterBefore sampleRewards sampleRewardState.ledger
      (verifiableReceiptID sampleRewards forgedProof.toCVerifiable [])
      (getMinersID sampleRewards.toVerifiableServices proof.kbHeader)
      (sampleRewards.node.genAddress forgedProof.mPubKey).2 domain = {} := by
    unfold reporterBefore Ledger.findByID
    rw [Ledger.save_of_ne _ _ hother, hmissing, Option.getD_none]
  have hcovered := (hsettled.noMoneyCreated_iff sampleRewardState_readable).mp hlaw
  rw [covered_iff_twice (by rw [hdomain]) (by rw [hreporter]; decide) (by rw [hreporter]; decide)
    (by decide), hdomain] at hcovered
  exact absurd hcovered (by decide)

end Sample

end Gridnet
