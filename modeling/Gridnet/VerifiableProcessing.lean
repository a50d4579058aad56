import Gridnet.VerifiableModel

/-! `processVerifiable`, which pays the operator's reward and penalizes a fraud, and the loop
`processVerifiables`, which forms a block or verifies against one. -/

namespace Gridnet

/-- What processing verifiables uses beside their verification: the security settings, the storage of
values, the treasury, and the issuance of the Genesis rewards, a script of the engine. The ID of a
receipt is fresh; `VarLengthDecodeVector` is handed what its vector holds already. -/
structure RewardServices (Trie : Type) extends VerifiableServices Trie where
  values : ValueCodec
  getPenaltyForPoF : BigInt
  getRewardForPoFProcessing : BigInt
  getTreasuryDomainID : Bytes
  getMinersLockPeriod : UInt64
  blockRewardFlags : Bytes
  fraudProcessingFlags : Bytes
  getReceiptIDForVerifiable : CVerifiable → Bytes
  VarLengthDecodeVector : (held stored : List Bytes) → List Bytes
  addNodeExt : Ledger → Bytes → Bool
  issueGenesisRewards : Bytes → Ledger →
    Except ProcessFault (eTransactionValidationResult × Ledger)

/-- What `processVerifiable` changes: the domains of the flow, its links and the two rewards. -/
structure RewardState where
  ledger : Ledger
  mInFlowLinks : List CLinkContainer := []
  rewardValidatedUpToNow : BigInt := 0
  rewardIssuedToMinerAfterTAX : BigInt := 0

/-- How a step of processing goes on: with the next one, or by returning a result. -/
inductive RewardStep (α : Type) where
  | proceed (a : α)
  | done (result : eTransactionValidationResult)

/-- The types of verifiables that a block of either kind may carry. -/
def allowedInBlock (isKeyBlock : Bool) : eVerifiableType → Bool
  | .minerReward => true
  | .GenesisRewards => isKeyBlock
  | .powerGeneration => true
  | .uncleBlock => !isKeyBlock
  | .dataPropagation => !isKeyBlock
  | .powerTransit => !isKeyBlock
  | .proofOfFraud => !isKeyBlock

section Processing

variable {Trie : Type} (S : RewardServices Trie)

/-- The domain of an address; a missing one is created, within an assertion. -/
def findOrCreate (l : Ledger) (address : Bytes) : Except ProcessFault (StateDomain × Ledger) :=
  match l.findByID address with
  | some domain => .ok (domain, l)
  | none =>
      if S.addNodeExt l address then .ok ({}, l.save address {}) else .error (.fault .assertion)

/-- The statistics of a domain with an entry more: what the vector holds afterwards, and the domain. -/
def recordStats (TXNibbles : List Bytes) (domain : StateDomain)
    (flags receiptID address : Bytes) (value : BigInt) : List Bytes × StateDomain :=
  let nibbles := S.VarLengthDecodeVector TXNibbles domain.TXNibbles ++
    [flags, receiptID, address, S.node.BigSIntToBytes value.toNat]
  (nibbles, { domain with TXNibbles := nibbles })

/-- The local variables of the loop over the affected domains. -/
structure RewardLocals where
  tax : BigInt := 0
  TXNibbles : List Bytes := []

/-- The tax goes to the treasury, if there is one; `none`, if its balance cannot be changed. -/
def payTax (l : Ledger) (tax : BigInt) : Option Ledger :=
  match l.findByID S.getTreasuryDomainID with
  | none => some l
  | some treasury =>
      (treasury.changeBalanceBy tax.toNat).map (l.save S.getTreasuryDomainID)

/-- What is left of a reward after tax. -/
def rewardAfterTax (value : ℤ) (tax : BigInt) : BigInt :=
  if (tax.toNat : ℤ) < value then BitVec.ofInt 256 (value - tax.toNat) else 0

/-- The credit of the beneficiary, with the lock of the reward and the entry in the statistics. -/
def creditReward (block : RewardedBlock) (receiptID : Bytes) (locals : RewardLocals)
    (address : Bytes) (reward : BigInt) (domain : StateDomain) :
    Except ProcessFault (Option (RewardLocals × StateDomain)) :=
  match domain.changeBalanceBy reward.toNat with
  | none => .ok none
  | some domain =>
      match domain.incLockedAssets S.values block.keyHeight reward
          (block.keyHeight + S.getMinersLockPeriod) with
      | .error _ => .error (.fault .assertion)
      | .ok locked =>
          let domain := { domain with toCStateDomain := locked }
          let (TXNibbles, domain) :=
            recordStats S locals.TXNibbles domain S.blockRewardFlags receiptID address reward
          .ok (some ({ locals with TXNibbles }, domain))

/-- A turn of the loop over the affected domains of an operator's reward. -/
def payReward (block : RewardedBlock) (receiptID : Bytes) (locals : RewardLocals)
    (change : BalanceChange) (st : RewardState) :
    Except ProcessFault (RewardStep RewardLocals × RewardState) :=
  if block.mMinersID = [] then .ok (.done .incosistentData, st)
  else
    match findOrCreate S st.ledger change.address with
    | .error e => .error e
    | .ok (_, l) =>
        let value := change.pendingPreTaxBalanceChange
        let tax := taxOn (S.getMiningTax block.keyHeight) value locals.tax
        let locals := { locals with tax }
        match payTax S l tax with
        | none => .ok (.done .invalid, { st with ledger := l })
        | some l =>
            let reward := rewardAfterTax value tax
            if block.isCheckpointed = false ∧ reward ≠ block.getPaidToMiner then
              .ok (.done .invalid, { st with ledger := l })
            else
              match l.findByID change.address with
              | none => .error .nullDereference
              | some domain =>
                  match creditReward S block receiptID locals block.mMinersID reward domain with
                  | .error e => .error e
                  | .ok none => .ok (.done .invalid, { st with ledger := l })
                  | .ok (some (locals, domain)) => .ok (.proceed locals,
                      { st with
                        ledger := l.save change.address domain
                        rewardIssuedToMinerAfterTAX :=
                          st.rewardIssuedToMinerAfterTAX + reward })

/-- The branch of the operator's reward. -/
def payRewards (block : RewardedBlock) (receiptID : Bytes) :
    RewardLocals → List BalanceChange → RewardState →
      Except ProcessFault (eTransactionValidationResult × RewardState)
  | _, [], st => .ok (.valid, st)
  | locals, change :: changes, st =>
      match payReward S block receiptID locals change st with
      | .error e => .error e
      | .ok (.done result, st) => .ok (result, st)
      | .ok (.proceed locals, st) => payRewards block receiptID locals changes st

/-- The standard penalty, or all that there is. -/
def penaltyOf (availableBalance : BigInt) : BigInt :=
  if availableBalance < S.getPenaltyForPoF then availableBalance else S.getPenaltyForPoF

/-- The penalty is taken: `-1 * penalty` is computed without a sign, and whether the balance could be changed is
not looked at. -/
def penalize (receiptID reportersID : Bytes) (domain : StateDomain) : List Bytes × StateDomain :=
  let penalty := penaltyOf S domain.getBalance
  recordStats S [] ((domain.changeBalanceBy (-penalty).toNat).getD domain) S.fraudProcessingFlags
    receiptID reportersID penalty

/-- The reward of the reporter, whatever the penalty was; here, too, nobody looks at whether the
balance could be changed. -/
def rewardReporter (TXNibbles : List Bytes) (receiptID perpetratorID : Bytes)
    (domain : StateDomain) : StateDomain :=
  (recordStats S TXNibbles
    ((domain.changeBalanceBy S.getRewardForPoFProcessing.toNat).getD domain) S.fraudProcessingFlags
    receiptID perpetratorID S.getRewardForPoFProcessing).2

/-- The branch of a proof of fraud. -/
def processProofOfFraud (ver : CVerifiable) (receiptID : Bytes) (st : RewardState) :
    Except ProcessFault (eTransactionValidationResult × RewardState) :=
  match getPoFProof S.toVerifiableServices ver.mProof with
  | none => .ok (.invalid, st)
  | some proof =>
      if ver.mPubKey.length ≠ 32 then .ok (.invalid, st)
      else
        let reportersID := (S.node.genAddress ver.mPubKey).2
        let perpetratorID := getMinersID S.toVerifiableServices proof.kbHeader
        match st.ledger.findByID perpetratorID with
        | none => .ok (.invalid, st)
        | some domain =>
            if domain.getBalance = 0 then .ok (.invalid, st)
            else
              let (TXNibbles, domain) := penalize S receiptID reportersID domain
              match findOrCreate S (st.ledger.save perpetratorID domain) reportersID with
              | .error e => .error e
              | .ok (reporter, l) =>
                  match proof.kbHeader.getHash S.headers false with
                  | none => .error (.fault .assertion)
                  | some (hash, _) =>
                      match newLink (S.getProofOfFraudID hash) receiptID .PoFIDtoReceiptID with
                      | .error e => .error (.fault e)
                      | .ok lc => .ok (.valid,
                          { st with
                            ledger := l.save reportersID
                              (rewardReporter S TXNibbles receiptID perpetratorID reporter)
                            mInFlowLinks := st.mInFlowLinks ++ [lc]
                            rewardValidatedUpToNow :=
                              st.rewardValidatedUpToNow + S.getRewardForPoFProcessing })

/-- What is done for a verifiable that was accepted. -/
def issueVerifiable (block : RewardedBlock) (ver : PoolVerifiable) (receiptID : Bytes)
    (st : RewardState) : Except ProcessFault (eTransactionValidationResult × RewardState) :=
  match ver.mVerifiableType with
  | .minerReward => payRewards S block receiptID {} ver.getAffectedStateDomains st
  | .proofOfFraud => processProofOfFraud S ver.toCVerifiable receiptID st
  | .GenesisRewards =>
      (S.issueGenesisRewards receiptID st.ledger).map fun (result, ledger) =>
        (result, { st with ledger })
  | .uncleBlock => .ok (.valid, st)
  | .dataPropagation => .ok (.valid, st)
  | .powerGeneration => .ok (.valid, st)
  | .powerTransit => .ok (.valid, st)

/-- The result of `processVerifiable`, which works on a copy of the verifiable. What it changed before
an invalid result stays changed. -/
def verifiableResult (chain : ChainView) (keyHeight : UInt64) (block : RewardedBlock)
    (ver : PoolVerifiable) (receiptID : Bytes) (st : RewardState) :
    Except ProcessFault (eTransactionValidationResult × RewardState) :=
  if (st.ledger.findByID S.getTreasuryDomainID).isNone ∧ keyHeight ≠ 0 then .ok (.invalid, st)
  else if allowedInBlock block.isKeyBlock ver.mVerifiableType = false then .ok (.invalid, st)
  else
    match verifyActuateAndArm S.toVerifiableServices chain st.mInFlowLinks block ver.copied
        st.rewardValidatedUpToNow with
    | .error e => .error (.fault e)
    | .ok none => .ok (.invalid, st)
    | .ok (some ver) =>
        if ver.isArmed = false then .error (.fault .assertion)
        else issueVerifiable S block ver receiptID st

/-- The ID of the receipt: the given one, if it is longer than a hash. -/
def verifiableReceiptID (ver : CVerifiable) (receiptID : Bytes) : Bytes :=
  if receiptID.length ≤ 32 then S.getReceiptIDForVerifiable ver else receiptID

/-- `processVerifiable`; its receipts account for no ERG. -/
def processVerifiable (chain : ChainView) (keyHeight : UInt64) (block : RewardedBlock)
    (ver : PoolVerifiable) (receiptID : Bytes) (st : RewardState) :
    Except ProcessFault (CReceipt × RewardState) :=
  let receiptID := verifiableReceiptID S ver.toCVerifiable receiptID
  match verifiableResult S chain keyHeight block ver receiptID st with
  | .error e => .error e
  | .ok (mResult, st) =>
      .ok ({ mGUID := receiptID, mVerifiableID := S.getHash ver.toCVerifiable, mResult }, st)

end Processing

end Gridnet
