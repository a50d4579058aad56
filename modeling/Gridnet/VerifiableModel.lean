import Gridnet.BlockHeaderModel
import Gridnet.BlockProcessing

/-! Verifiables, which a block carries beside its transactions: rewards and proofs of fraud, the links
that mark a fraud as processed, and `CVerifier::verifyActuateAndArm`, which accepts and arms them. -/

namespace Gridnet

open Ber ASN1_Tag

inductive eVerifiableType where
  | minerReward
  | GenesisRewards
  | uncleBlock
  | dataPropagation
  | powerGeneration
  | powerTransit
  | proofOfFraud
  deriving DecidableEq, Repr

inductive eLinkType where
  | receiptsGUIDtoReceiptsHash
  | transactionHashToBlockID
  | verifiableHashToBlockID
  | receiptHashToBlockID
  | BHeightPKtoBlockHeader
  | PoFIDtoReceiptID
  | friendlyIDtoAddr
  deriving DecidableEq, Repr

structure CLinkContainer where
  mKey : Bytes
  mValue : Bytes
  mType : eLinkType
  deriving DecidableEq, Repr

/-- The constructor of `CLinkContainer`, with its assertion. -/
def newLink (key value : Bytes) (type : eLinkType) : Except Fault CLinkContainer :=
  if 32 ≤ key.length ∧ key.length ≤ 35 then .ok ⟨key, value, type⟩ else .error .assertion

/-- The value of a link is not compared. -/
def isLinkInFlow (mInFlowLinks : List CLinkContainer) (link : CLinkContainer) : Bool :=
  mInFlowLinks.any fun known => known.mKey = link.mKey ∧ known.mType = link.mType

/-- A domain that a verifiable changes: its address, and the change of its balance before tax. -/
structure BalanceChange where
  address : Bytes
  pendingPreTaxBalanceChange : ℤ
  deriving DecidableEq, Repr

/-- The serialized fields of a verifiable. -/
structure CVerifiable where
  mVersion : UInt64 := 1
  mGUID : Bytes := []
  mErgLimit : BigInt := 0
  mErgPrice : UInt64 := 0
  mVerifiableType : eVerifiableType := .minerReward
  mProof : Bytes := []
  mPubKey : Bytes := []
  mSignature : Bytes := []
  mAffectedDomains : List BalanceChange := []
  deriving DecidableEq, Repr

/-- A verifiable object: the verifiable, what is armed at run time, and its properties. -/
structure PoolVerifiable extends CVerifiable where
  mArmedBalanceOverrides : List (Bytes × ℤ) := []
  mIsArmed : Bool := false
  coldInvalid : Bool := false
  HotProperties : HotStorageProperties := {}
  deriving DecidableEq, Repr

/-- A tax rate as its users see it: whether it is between zero and one, and
`llround(taxRate * 1000000.0)`. -/
structure TaxRate where
  withinUnit : Bool
  millionths : ℕ
  bounded : withinUnit = true → millionths ≤ 1000000

/-- What verifiables use of the node beside headers and transactions: the serialization of the
verifiable, the crypto factory, the tools, the security settings, the Genesis facts and the flag that
turns the verifier's log on. -/
structure VerifiableServices (Trie : Type) where
  headers : ChainServices Trie
  node : NodeServices
  blockchainMode : eBlockchainMode
  ENABLE_FLOW_DETAILED_LOGS_VERIFIER : Bool
  getHash : CVerifiable → Bytes
  getRawData : CVerifiable → Bytes
  verifyBlockSignature : CBlockHeader Trie → Bytes → Bool
  getProofOfFraudID : Bytes → Bytes
  getMiningTax : UInt64 → TaxRate
  verifyGenesisFacts : Bytes → Bool

/-- What the verifier asks of the main chain: the hash of the header of the key block at a key height,
the links of the solid storage and the domains of the live manager. -/
structure ChainView where
  keyBlockHashAt : ℕ → Option Bytes
  loadLink : Bytes → eLinkType → Option Bytes
  liveDomains : Ledger

/-- A block with what its verifiables need. The effective rewards are those that the node computed
itself; they are not serialized. -/
structure RewardedBlock extends CBlockProposal where
  isGenesis : Bool := false
  mMinersID : Bytes := []
  mTotalReward : BigInt := 0
  mTotalRewardEffective : BigInt := 0
  mPaidToLeader : BigInt := 0
  mPaidToLeaderEffective : BigInt := 0
  verifiables : List CVerifiable := []
  deriving DecidableEq, Repr

namespace RewardedBlock

def getTotalBlockReward (block : RewardedBlock) : BigInt :=
  if block.mTotalRewardEffective ≠ 0 then block.mTotalRewardEffective else block.mTotalReward

/-- Which of the two fields counts is decided by the total reward. -/
def getPaidToMiner (block : RewardedBlock) : BigInt :=
  if block.mTotalRewardEffective ≠ 0 then block.mPaidToLeaderEffective else block.mPaidToLeader

end RewardedBlock

namespace PoolVerifiable

def arm (v : PoolVerifiable) : PoolVerifiable := { v with mIsArmed := true }

/-- The newest entry for a domain counts. -/
def armBalanceChange (v : PoolVerifiable) (domainID : Bytes) (newValue : ℤ) : PoolVerifiable :=
  { v with mArmedBalanceOverrides := (domainID, newValue) :: v.mArmedBalanceOverrides }

def isArmed (v : PoolVerifiable) : Bool := v.mIsArmed || !v.mArmedBalanceOverrides.isEmpty

/-- The copy constructor leaves the overrides behind. -/
def copied (v : PoolVerifiable) : PoolVerifiable := { v with mArmedBalanceOverrides := [] }

/-- The affected domains with what is armed for them. -/
def getAffectedStateDomains (v : PoolVerifiable) : List BalanceChange :=
  v.mAffectedDomains.map fun change =>
    { change with
      pendingPreTaxBalanceChange :=
        (v.mArmedBalanceOverrides.lookup change.address).getD change.pendingPreTaxBalanceChange }

end PoolVerifiable

/-! ### Proofs of fraud -/

/-- `setPoFProof`: the proof with the bodies of the key block's header and of two more. -/
def setPoFProof (kbBody bh1Body bh2Body : Bytes) : Option Bytes :=
  if kbBody = [] ∨ bh1Body = [] ∨ bh2Body = [] then none
  else some (cons SEQUENCE UNIVERSAL
    (encodeBits kbBody ++ encodeBits bh1Body ++ encodeBits bh2Body))

/-- `getPoFProof` of the bodies. -/
def getPoFBodies (mProof : Bytes) : Option (Bytes × Bytes × Bytes) :=
  if mProof = [] then none
  else do
    let dec ← startCons SEQUENCE mProof
    let (kbBody, dec) ← decodeBits dec
    let (bh1Body, dec) ← decodeBits dec
    let (bh2Body, _) ← decodeBits dec
    if bh1Body ≠ [] ∧ bh2Body ≠ [] then some (kbBody, bh1Body, bh2Body) else none

section Verification

variable {Trie : Type} (S : VerifiableServices Trie)

/-- A header of the proof. -/
def instantiateHeader (body : Bytes) : Option (CBlockHeader Trie) :=
  (CBlockHeader.instantiate S.headers body .OK "" S.blockchainMode).1

/-- The headers that a proof of fraud carries: of the key block and of two data blocks. -/
structure PoFProof (Trie : Type) where
  kbHeader : CBlockHeader Trie
  bh1 : CBlockHeader Trie
  bh2 : CBlockHeader Trie

/-- `getPoFProof` of the headers. -/
def getPoFProof (mProof : Bytes) : Option (PoFProof Trie) := do
  let (kbBody, bh1Body, bh2Body) ← getPoFBodies mProof
  if kbBody = [] ∨ bh1Body = [] ∨ bh2Body = [] then none
  else
    let kbHeader ← instantiateHeader S kbBody
    let bh1 ← instantiateHeader S bh1Body
    let bh2 ← instantiateHeader S bh2Body
    return ⟨kbHeader, bh1, bh2⟩

/-- `getMinersID`: the address of the operator; empty, if the header has no public key. -/
def getMinersID (header : CBlockHeader Trie) : Bytes :=
  if (header.fields .mPublicKey).length = 32 then (S.node.genAddress (header.fields .mPublicKey)).2
  else []

/-- `verifySignature` of a verifiable that nobody hands a key to; the signature is not part of what is
signed. -/
def CVerifiable.verifySignature (v : CVerifiable) : Bool :=
  if v.mSignature = [] then false
  else if v.mPubKey.length ≠ 32 then false
  else S.node.verifySignature v.mSignature (S.getRawData { v with mSignature := [] }) v.mPubKey

/-- The checks of a key block whose operator is to be penalized. Of the two other headers nothing is
asked. -/
def verifyFraudulentKeyBlock (chain : ChainView) (mInFlowLinks : List CLinkContainer)
    (kbh : CBlockHeader Trie) : Except Fault Bool :=
  match chain.keyBlockHashAt (kbh.fields .mKeyHeight) with
  | none => .ok false
  | some actualKeyBlock =>
      match kbh.getHash S.headers false with
      | none => .error .assertion
      | some (hash, kbh) =>
          if actualKeyBlock ≠ hash then .ok false
          else
            match newLink (S.getProofOfFraudID hash) [] .PoFIDtoReceiptID with
            | .error e => .error e
            | .ok lc =>
                if isLinkInFlow mInFlowLinks lc then .ok false
                else if (chain.loadLink (S.getProofOfFraudID hash) .PoFIDtoReceiptID).isSome then
                  .ok false
                else if kbh.fields .mPaidToLeader = (0 : BigInt) then .ok false
                else .ok (chain.liveDomains.findByID (getMinersID S kbh)).isSome

/-- The branch of a proof of fraud. -/
def verifyProofOfFraud (chain : ChainView) (mInFlowLinks : List CLinkContainer)
    (v : PoolVerifiable) : Except Fault (Option PoolVerifiable) :=
  if v.verifySignature S = false then .ok none
  else
    match getPoFProof S v.mProof with
    | none => .ok none
    | some proof =>
        match verifyFraudulentKeyBlock S chain mInFlowLinks proof.kbHeader with
        | .error e => .error e
        | .ok accepted => .ok (if accepted then some v.arm else none)

/-! ### Rewards -/

/-- The tax as the verifier and the processing of a reward compute it, from a signed number; small
rewards are not taxed, and `tax` is what the variable holds before. -/
def taxOn (rate : TaxRate) (value : ℤ) (tax : BigInt) : BigInt :=
  if 101 < value then
    if rate.withinUnit then BitVec.ofInt 256 value * BitVec.ofNat 256 rate.millionths / 1000000
    else tax
  else tax

/-- The tax as `formBlock` computes it. -/
def formationTax (rate : TaxRate) (reward : BigInt) : BigInt :=
  if 101 < reward then
    if rate.withinUnit then reward * BitVec.ofNat 256 rate.millionths / 1000000 else 0
  else 0

/-- The rewards that `formBlock` sets in the header: the total, and what is left after tax. -/
def RewardedBlock.setRewards (block : RewardedBlock) (reward : BigInt) : RewardedBlock :=
  let paidToMiner := reward - formationTax (S.getMiningTax block.keyHeight) reward
  { block with
    mTotalReward := reward
    mTotalRewardEffective := reward
    mPaidToLeader := paidToMiner
    mPaidToLeaderEffective := paidToMiner }

/-- What the header and the verifiable of a block without a checkpoint say of the reward agrees with
what was computed. -/
def rewardAgrees (block : RewardedBlock) (change : BalanceChange) (reward : BigInt) : Bool :=
  let effectiveRewardAfterTAX := reward - taxOn (S.getMiningTax block.keyHeight) reward.toNat 0
  block.getPaidToMiner = effectiveRewardAfterTAX ∧ block.getTotalBlockReward = reward ∧
    change.pendingPreTaxBalanceChange = (block.getTotalBlockReward.toNat : ℤ)

/-- The branch of the operator's reward. In a block without a checkpoint the change of the balance is
armed among the lines of the log. -/
def verifyMinerReward (block : RewardedBlock) (v : PoolVerifiable) (reward : BigInt) :
    Option PoolVerifiable :=
  match v.getAffectedStateDomains with
  | [change] =>
      if 1 < block.verifiables.countP (·.mVerifiableType = .minerReward) then none
      else if block.isCheckpointed then some (v.armBalanceChange change.address reward.toNat)
      else if rewardAgrees S block change reward then
        some (if S.ENABLE_FLOW_DETAILED_LOGS_VERIFIER then
          v.armBalanceChange change.address reward.toNat else v)
      else none
  | _ => none

/-- `verifyActuateAndArm`: the verifiable as it is armed, if it is accepted. -/
def verifyActuateAndArm (chain : ChainView) (mInFlowLinks : List CLinkContainer)
    (block : RewardedBlock) (v : PoolVerifiable) (totalBlockRewardValidUptilNow : BigInt) :
    Except Fault (Option PoolVerifiable) :=
  match v.mVerifiableType with
  | .proofOfFraud => verifyProofOfFraud S chain mInFlowLinks v
  | .GenesisRewards =>
      .ok (if block.isGenesis ∧ S.verifyGenesisFacts v.mProof then some v.arm else none)
  | .minerReward => .ok (verifyMinerReward S block v totalBlockRewardValidUptilNow)
  | .uncleBlock => .ok none
  | .dataPropagation => .ok none
  | .powerTransit => .ok none
  | .powerGeneration => .ok none

end Verification

end Gridnet
