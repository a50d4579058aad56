import Gridnet.BlockIdentity
import Gridnet.VerifiableModel

/-! Which proofs of fraud are accepted. Of the two headers that are to show the fraud the verifier asks
nothing, so that the operator of a key block is safe exactly where no proof at all is accepted. -/

namespace Gridnet

open Ber ASN1_Tag

section Bodies

/-- A proof is read back with the bodies that it was made of. -/
theorem getPoFBodies_setPoFProof {kbBody bh1Body bh2Body : Bytes} (hkb : kbBody ≠ [])
    (hbh1 : bh1Body ≠ []) (hbh2 : bh2Body ≠ [])
    (hlen : kbBody.length + bh1Body.length + bh2Body.length + 21 < 2 ^ 32) :
    ∃ mProof, setPoFProof kbBody bh1Body bh2Body = some mProof ∧
      getPoFBodies mProof = some (kbBody, bh1Body, bh2Body) := by
  have hkbLen := length_encodeBits_le kbBody (by omega)
  have hbh1Len := length_encodeBits_le bh1Body (by omega)
  have hbh2Len := length_encodeBits_le bh2Body (by omega)
  have hcontents : (encodeBits kbBody ++ encodeBits bh1Body ++ encodeBits bh2Body).length < 2 ^ 32 := by
    simp only [List.length_append]
    omega
  refine ⟨_, if_neg (by simp [hkb, hbh1, hbh2]), ?_⟩
  have hne : cons SEQUENCE UNIVERSAL (encodeBits kbBody ++ encodeBits bh1Body ++ encodeBits bh2Body) ≠
      [] := by
    intro hnil
    have hlength := length_le_addObject SEQUENCE (UNIVERSAL ||| CONSTRUCTED)
      (encodeBits kbBody ++ encodeBits bh1Body ++ encodeBits bh2Body)
    rw [cons] at hnil
    rw [hnil, List.length_nil, Nat.le_zero, List.length_eq_zero_iff] at hlength
    rw [hlength] at hnil
    exact absurd hnil (by decide)
  have hstart := startCons_cons hcontents []
  rw [List.append_nil] at hstart
  have hfirst := decodeBits_encodeBits kbBody (by omega)
    (encodeBits bh1Body ++ encodeBits bh2Body)
  have hsecond := decodeBits_encodeBits bh1Body (by omega) (encodeBits bh2Body)
  have hthird := decodeBits_encodeBits bh2Body (by omega) []
  rw [List.append_nil] at hthird
  rw [List.append_assoc] at hstart hne ⊢
  rw [getPoFBodies, if_neg hne, hstart]
  simp [hfirst, hsecond, hthird, hbh1, hbh2]

end Bodies

section Fraud

variable {Trie : Type} (S : VerifiableServices Trie)

/-- What is documented of the tools and of the crypto factory: the ID of a fraud is a hash, and who
holds a key can sign what he likes. -/
structure VerifiableServices.Documented : Prop where
  fraudID_length : ∀ hash, 32 ≤ (S.getProofOfFraudID hash).length ∧
    (S.getProofOfFraudID hash).length ≤ 35
  signs : ∃ pubKey : Bytes, pubKey.length = 32 ∧
    ∀ data, ∃ signature, signature ≠ [] ∧ S.node.verifySignature signature data pubKey = true

/-- What an operator does who is to lose his deposit: he signs two different data blocks of one height
under one key block. -/
structure Fraud (proof : PoFProof Trie) : Prop where
  dataBlocks : proof.bh1.mIsKeyBlock = false ∧ proof.bh2.mIsKeyBlock = false
  different : proof.bh1 ≠ proof.bh2
  sameHeight : proof.bh1.fields .mHeight = proof.bh2.fields .mHeight
  sameKeyBlock : proof.bh1.fields .mKeyHeight = proof.kbHeader.fields .mKeyHeight ∧
    proof.bh2.fields .mKeyHeight = proof.kbHeader.fields .mKeyHeight
  signed : S.verifyBlockSignature proof.bh1 (proof.kbHeader.fields .mPublicKey) = true ∧
    S.verifyBlockSignature proof.bh2 (proof.kbHeader.fields .mPublicKey) = true

/-- A key block whose operator can be penalized: it is in the main chain and paid its operator, whose
domain exists, and no fraud of it was processed yet. -/
structure Penalizable (chain : ChainView) (mInFlowLinks : List CLinkContainer)
    (kbh : CBlockHeader Trie) (hash : Bytes) : Prop where
  hashed : (kbh.getHash S.headers false).map Prod.fst = some hash
  onMainChain : chain.keyBlockHashAt (kbh.fields .mKeyHeight) = some hash
  notInFlow : ∀ link ∈ mInFlowLinks,
    ¬(link.mKey = S.getProofOfFraudID hash ∧ link.mType = .PoFIDtoReceiptID)
  notStored : chain.loadLink (S.getProofOfFraudID hash) .PoFIDtoReceiptID = none
  paid : kbh.fields .mPaidToLeader ≠ (0 : BigInt)
  known : (chain.liveDomains.findByID (getMinersID S kbh)).isSome = true

variable {S} {chain : ChainView} {mInFlowLinks : List CLinkContainer} {kbh : CBlockHeader Trie}

/-- Hashing a header assigns no more than its roots. -/
theorem getHash_fields {services : ChainServices Trie} {hash : Bytes} {kbh' : CBlockHeader Trie}
    (hhash : kbh.getHash services false = some (hash, kbh')) {f : HeaderField}
    (hf : f ∉ [HeaderField.mTransactionsRootID, .mReceiptsRootID, .mVerifiablesRootID]) :
    kbh'.fields f = kbh.fields f := by
  have hcached : ¬(false && !kbh.mHashTemp.isEmpty) = true := Bool.false_ne_true
  rw [CBlockHeader.getHash, if_neg hcached] at hhash
  split at hhash
  · rename_i temp header hpacked
    cases hhash
    show header.fields f = kbh.fields f
    unfold CBlockHeader.getPackedData at hpacked
    split_ifs at hpacked
    · cases hpacked
    · dsimp only at hpacked
      obtain ⟨-, hrest⟩ := Prod.mk.inj hpacked
      obtain ⟨-, rfl⟩ := Prod.mk.inj hrest
      exact CBlockHeader.fillRoots_other kbh hf
    · cases hpacked
  · cases hhash

theorem getMinersID_congr {kbh' : CBlockHeader Trie}
    (hkey : kbh'.fields .mPublicKey = kbh.fields .mPublicKey) :
    getMinersID S kbh' = getMinersID S kbh := by
  rw [getMinersID, getMinersID, hkey]

theorem isLinkInFlow_eq_false_iff {link : CLinkContainer} :
    isLinkInFlow mInFlowLinks link = false ↔
      ∀ known ∈ mInFlowLinks, ¬(known.mKey = link.mKey ∧ known.mType = link.mType) := by
  rw [isLinkInFlow, List.any_eq_false]
  simp only [decide_eq_true_eq]

/-- The checks of the key block are passed exactly by those whose operators can be penalized. -/
theorem verifyFraudulentKeyBlock_iff (hS : S.Documented) :
    verifyFraudulentKeyBlock S chain mInFlowLinks kbh = .ok true ↔
      ∃ hash, Penalizable S chain mInFlowLinks kbh hash := by
  unfold verifyFraudulentKeyBlock
  cases hkeyBlock : chain.keyBlockHashAt (kbh.fields .mKeyHeight) with
  | none =>
      refine ⟨nofun, ?_⟩
      rintro ⟨hash, hpenalizable⟩
      exact absurd (hkeyBlock.symm.trans hpenalizable.onMainChain) nofun
  | some actualKeyBlock =>
      cases hhash : kbh.getHash S.headers false with
      | none =>
          refine ⟨nofun, ?_⟩
          rintro ⟨hash, hpenalizable⟩
          have hhashed := hpenalizable.hashed
          rw [hhash] at hhashed
          cases hhashed
      | some hashed =>
          obtain ⟨hash, kbh'⟩ := hashed
          have hpaid : kbh'.fields .mPaidToLeader = kbh.fields .mPaidToLeader :=
            getHash_fields hhash (by decide)
          have hkey : kbh'.fields .mPublicKey = kbh.fields .mPublicKey :=
            getHash_fields hhash (by decide)
          have hlink : newLink (S.getProofOfFraudID hash) [] .PoFIDtoReceiptID =
              .ok ⟨S.getProofOfFraudID hash, [], .PoFIDtoReceiptID⟩ :=
            if_pos (hS.fraudID_length hash)
          dsimp only
          rw [hlink, hpaid, getMinersID_congr hkey]
          dsimp only
          constructor
          · intro haccepted
            split_ifs at haccepted with hother hinFlow hstored hunpaid
            · cases haccepted
            · cases haccepted
            · cases haccepted
            · cases haccepted
            · refine ⟨hash, ⟨?_, ?_, ?_, ?_, hunpaid, Except.ok.inj haccepted⟩⟩
              · rw [hhash, Option.map_some]
              · rw [hkeyBlock, Decidable.not_not.mp hother]
              · exact isLinkInFlow_eq_false_iff.mp (Bool.eq_false_iff.mpr hinFlow)
              · exact Option.not_isSome_iff_eq_none.mp hstored
          · rintro ⟨hash', hpenalizable⟩
            have hhashed := hpenalizable.hashed
            rw [hhash, Option.map_some, Option.some.injEq] at hhashed
            subst hhashed
            have hsame : actualKeyBlock = hash :=
              Option.some.inj (hkeyBlock.symm.trans hpenalizable.onMainChain)
            have hinFlow : isLinkInFlow mInFlowLinks
                ⟨S.getProofOfFraudID hash, [], .PoFIDtoReceiptID⟩ = false :=
              isLinkInFlow_eq_false_iff.mpr hpenalizable.notInFlow
            rw [if_neg (not_not_intro hsame), hinFlow, if_neg Bool.false_ne_true,
              hpenalizable.notStored, if_neg (by decide), if_neg hpenalizable.paid,
              hpenalizable.known]

/-- A proof of fraud is accepted where its signature is valid, its headers can be read, and the operator
of its key block can be penalized. -/
theorem verifyProofOfFraud_iff (hS : S.Documented) {v : PoolVerifiable} :
    (∃ armed, verifyProofOfFraud S chain mInFlowLinks v = .ok (some armed)) ↔
      v.verifySignature S = true ∧ ∃ proof hash, getPoFProof S v.mProof = some proof ∧
        Penalizable S chain mInFlowLinks proof.kbHeader hash := by
  unfold verifyProofOfFraud
  cases hsigned : v.verifySignature S with
  | false =>
      rw [if_pos rfl]
      exact ⟨fun ⟨_, h⟩ => (nomatch h), fun ⟨h, _⟩ => (nomatch h)⟩
  | true =>
      rw [if_neg (by decide)]
      cases hproof : getPoFProof S v.mProof with
      | none => exact ⟨fun ⟨_, h⟩ => (nomatch h), fun ⟨_, _, _, h, _⟩ => (nomatch h)⟩
      | some proof =>
          have hkeyBlock : verifyFraudulentKeyBlock S chain mInFlowLinks proof.kbHeader = .ok true ↔
              ∃ hash, Penalizable S chain mInFlowLinks proof.kbHeader hash :=
            verifyFraudulentKeyBlock_iff hS
          dsimp only
          constructor
          · rintro ⟨armed, haccepted⟩
            cases hverify : verifyFraudulentKeyBlock S chain mInFlowLinks proof.kbHeader with
            | error e =>
                rw [hverify] at haccepted
                cases haccepted
            | ok accepted =>
                cases accepted with
                | false =>
                    rw [hverify] at haccepted
                    cases haccepted
                | true =>
                    obtain ⟨hash, hpenalizable⟩ := hkeyBlock.mp hverify
                    exact ⟨rfl, proof, hash, rfl, hpenalizable⟩
          · rintro ⟨-, proof', hash, hsame, hpenalizable⟩
            obtain rfl := Option.some.inj hsame
            rw [hkeyBlock.mpr ⟨hash, hpenalizable⟩]
            exact ⟨v.arm, rfl⟩

theorem armed_of_verifyProofOfFraud {v armed : PoolVerifiable}
    (haccepted : verifyProofOfFraud S chain mInFlowLinks v = .ok (some armed)) : armed = v.arm := by
  unfold verifyProofOfFraud at haccepted
  by_cases hsigned : v.verifySignature S = false
  · rw [if_pos hsigned] at haccepted
    cases haccepted
  rw [if_neg hsigned] at haccepted
  split at haccepted
  · cases haccepted
  · split at haccepted
    · cases haccepted
    · have hsome := Except.ok.inj haccepted
      split_ifs at hsome
      exact (Option.some.inj hsome).symm

theorem verifyActuateAndArm_proofOfFraud {v : PoolVerifiable}
    (htype : v.mVerifiableType = .proofOfFraud) (block : RewardedBlock) (reward : BigInt) :
    verifyActuateAndArm S chain mInFlowLinks block v reward =
      verifyProofOfFraud S chain mInFlowLinks v := by
  rw [verifyActuateAndArm, htype]

/-! ### No penalty without fraud -/

/-- A proof of fraud against a key block with this header is accepted. -/
structure AcceptedAgainst (S : VerifiableServices Trie) (chain : ChainView)
    (mInFlowLinks : List CLinkContainer) (block : RewardedBlock) (reward : BigInt) (kbBody : Bytes)
    (v : PoolVerifiable) : Prop where
  type : v.mVerifiableType = .proofOfFraud
  carries : ∃ bh1Body bh2Body, getPoFBodies v.mProof = some (kbBody, bh1Body, bh2Body)
  accepted : ∃ armed, verifyActuateAndArm S chain mInFlowLinks block v reward = .ok (some armed)

/-- A header is not empty. -/
theorem ne_nil_of_instantiateHeader {body : Bytes} {header : CBlockHeader Trie}
    (hheader : instantiateHeader S body = some header) : body ≠ [] := by
  rintro rfl
  unfold instantiateHeader CBlockHeader.instantiate at hheader
  split at hheader
  · cases hheader
  · rename_i bh _
    have hread : CBlockHeader.readHeader S.headers bh [] = .error {} := rfl
    rw [hread] at hheader
    cases hheader

theorem getPoFProof_eq_some {mProof : Bytes} {proof : PoFProof Trie}
    (hproof : getPoFProof S mProof = some proof) {kbBody bh1Body bh2Body : Bytes}
    (hbodies : getPoFBodies mProof = some (kbBody, bh1Body, bh2Body)) :
    instantiateHeader S kbBody = some proof.kbHeader := by
  rw [getPoFProof, hbodies] at hproof
  dsimp only [Option.bind_eq_bind, Option.bind_some] at hproof
  split_ifs at hproof
  obtain ⟨kbHeader, hkb, hproof⟩ := Option.bind_eq_some_iff.mp hproof
  obtain ⟨bh1, -, hproof⟩ := Option.bind_eq_some_iff.mp hproof
  obtain ⟨bh2, -, hproof⟩ := Option.bind_eq_some_iff.mp hproof
  cases hproof
  exact hkb

/-- The header of a key block, three times, is a proof as any other. -/
theorem getPoFProof_same {kbBody : Bytes} {kbh : CBlockHeader Trie}
    (hheader : instantiateHeader S kbBody = some kbh) {mProof : Bytes}
    (hbodies : getPoFBodies mProof = some (kbBody, kbBody, kbBody)) :
    getPoFProof S mProof = some ⟨kbh, kbh, kbh⟩ := by
  have hne : ¬(kbBody = [] ∨ kbBody = [] ∨ kbBody = []) := by
    simp only [or_self]
    exact ne_nil_of_instantiateHeader hheader
  rw [getPoFProof, hbodies]
  dsimp only [Option.bind_eq_bind, Option.bind_some]
  rw [if_neg hne, hheader]
  rfl

/-- Every reporter can have the operator penalized who can be penalized at all. -/
theorem acceptedAgainst_of_penalizable (hS : S.Documented) (block : RewardedBlock) (reward : BigInt)
    {kbBody : Bytes} (hlen : kbBody.length < 2 ^ 30)
    (hheader : instantiateHeader S kbBody = some kbh) {hash : Bytes}
    (hpenalizable : Penalizable S chain mInFlowLinks kbh hash) :
    ∃ v, AcceptedAgainst S chain mInFlowLinks block reward kbBody v ∧
      getPoFProof S v.mProof = some ⟨kbh, kbh, kbh⟩ := by
  have hne := ne_nil_of_instantiateHeader hheader
  obtain ⟨mProof, -, hbodies⟩ := getPoFBodies_setPoFProof hne hne hne (by omega)
  obtain ⟨mPubKey, hkey, hsigns⟩ := hS.signs
  obtain ⟨mSignature, hsome, hsigned⟩ :=
    hsigns (S.getRawData { mVerifiableType := .proofOfFraud, mProof, mPubKey })
  let v : PoolVerifiable := { mVerifiableType := .proofOfFraud, mProof, mPubKey, mSignature }
  have hvalid : v.verifySignature S = true := by
    rw [CVerifiable.verifySignature, if_neg hsome, if_neg (not_not_intro hkey)]
    exact hsigned
  have hproof : getPoFProof S v.mProof = some ⟨kbh, kbh, kbh⟩ := getPoFProof_same hheader hbodies
  refine ⟨v, ⟨rfl, ⟨kbBody, kbBody, hbodies⟩, ?_⟩, hproof⟩
  rw [verifyActuateAndArm_proofOfFraud rfl]
  exact (verifyProofOfFraud_iff hS).mpr ⟨hvalid, _, hash, hproof, hpenalizable⟩

/-- Only proofs of a real fraud are accepted against a key block exactly if none is accepted at all:
its operator cannot be penalized. -/
theorem accepted_only_for_fraud_iff (hS : S.Documented) (chain : ChainView)
    (mInFlowLinks : List CLinkContainer) (block : RewardedBlock) (reward : BigInt) {kbBody : Bytes}
    (hlen : kbBody.length < 2 ^ 30) :
    (∀ v, AcceptedAgainst S chain mInFlowLinks block reward kbBody v →
        ∃ proof, getPoFProof S v.mProof = some proof ∧ Fraud S proof) ↔
      ∀ kbh hash, instantiateHeader S kbBody = some kbh →
        ¬Penalizable S chain mInFlowLinks kbh hash := by
  constructor
  · intro honly kbh hash hheader hpenalizable
    obtain ⟨v, haccepted, hproof⟩ :=
      acceptedAgainst_of_penalizable hS block reward hlen hheader hpenalizable
    obtain ⟨proof, hproof', hfraud⟩ := honly v haccepted
    obtain rfl := Option.some.inj (hproof.symm.trans hproof')
    exact hfraud.different rfl
  · intro hnone v haccepted
    obtain ⟨armed, haccepts⟩ := haccepted.accepted
    rw [verifyActuateAndArm_proofOfFraud haccepted.type] at haccepts
    obtain ⟨-, proof, hash, hproof, hpenalizable⟩ :=
      (verifyProofOfFraud_iff hS).mp ⟨armed, haccepts⟩
    obtain ⟨bh1Body, bh2Body, hbodies⟩ := haccepted.carries
    exact absurd hpenalizable (hnone _ hash (getPoFProof_eq_some hproof hbodies))

end Fraud

/-! ### An honest operator -/

section Sample

/-- A node whose signatures repeat the key, and whose tries hold nothing. -/
def sampleVerifiables : VerifiableServices Bytes where
  headers := CBlock.emptyNode
  node := sampleServices
  blockchainMode := .TestNet
  ENABLE_FLOW_DETAILED_LOGS_VERIFIER := false
  getHash v := fixedBytes 32 v.mProof.length
  getRawData v := v.mProof
  verifyBlockSignature header publicKey := header.fields .mSignature = publicKey
  getProofOfFraudID hash := (hash ++ List.replicate 32 0).take 32
  getMiningTax _ := ⟨true, 100000, fun _ => by decide⟩
  verifyGenesisFacts _ := false

theorem sampleVerifiables_documented : sampleVerifiables.Documented where
  fraudID_length hash := by
    have hlength : (sampleVerifiables.getProofOfFraudID hash).length = 32 := by
      show ((hash ++ List.replicate 32 0).take 32).length = 32
      rw [List.length_take, List.length_append, List.length_replicate]
      omega
    rw [hlength]
    exact ⟨le_rfl, by decide⟩
  signs := by
    refine ⟨sampleKey 1, rfl, fun data => ⟨sampleKey 1, by decide, ?_⟩⟩
    exact decide_eq_true (p := sampleKey 1 = sampleKey 1) rfl

/-- The header of a key block at height zero that paid its operator. -/
def operatorContents (f : HeaderField) : Bytes :=
  match f with
  | .mPaidToLeader => [5]
  | f => CBlock.genesisContents f

def operatorHeader : Bytes :=
  cons eBERObjectType.keyBlockHeader PRIVATE <|
    encodeSmall 4 ++
    cons SEQUENCE UNIVERSAL
      ((headerCodec CBlock.emptyNode).row (decodedFields 4 true) operatorContents)

def operatorHash : Option Bytes :=
  (instantiateHeader sampleVerifiables operatorHeader).bind fun kbh =>
    (kbh.getHash sampleVerifiables.headers false).map Prod.fst

/-- A chain of this one key block, whose operator has a domain. -/
def sampleChain : ChainView where
  keyBlockHashAt height := if height = 0 then operatorHash else none
  loadLink _ _ := none
  liveDomains := Ledger.save (fun _ => none) (sampleServices.genAddress (List.replicate 32 7)).2
    { assetType := .BigInt, assetValue := 500 }

theorem sample_penalizable : ∃ kbh hash,
    instantiateHeader sampleVerifiables operatorHeader = some kbh ∧
      Penalizable sampleVerifiables sampleChain [] kbh hash := by
  have hsome : (instantiateHeader sampleVerifiables operatorHeader).isSome = true := by
    decide +kernel
  obtain ⟨kbh, hheader⟩ := Option.isSome_iff_exists.mp hsome
  have hread : ∀ {α : Type} (g : CBlockHeader Bytes → α) {a : α},
      (instantiateHeader sampleVerifiables operatorHeader).map g = some a → g kbh = a := by
    intro α g a hmap
    rw [hheader] at hmap
    exact Option.some.inj hmap
  have hheight : kbh.fields .mKeyHeight = (0 : ℕ) := hread (·.fields .mKeyHeight) (by decide +kernel)
  have hpaid : kbh.fields .mPaidToLeader = (5 : BigInt) :=
    hread (·.fields .mPaidToLeader) (by decide +kernel)
  have hkey : kbh.fields .mPublicKey = List.replicate 32 7 :=
    hread (·.fields .mPublicKey) (by decide +kernel)
  have hpacked : (kbh.getPackedData CBlock.emptyNode [] true).1 = true :=
    hread (fun kbh => (kbh.getPackedData CBlock.emptyNode [] true).1) (by decide +kernel)
  obtain ⟨hash, hhash⟩ : ∃ hash,
      (kbh.getHash sampleVerifiables.headers false).map Prod.fst = some hash := by
    obtain ⟨⟨packed, data, header⟩, hdata⟩ :
        ∃ result, kbh.getPackedData CBlock.emptyNode [] true = result := ⟨_, rfl⟩
    rw [hdata] at hpacked
    dsimp only at hpacked
    subst hpacked
    refine ⟨CBlock.emptyNode.cf.getSHA2_256Vec data, ?_⟩
    show (kbh.getHash CBlock.emptyNode false).map Prod.fst = _
    rw [CBlockHeader.getHash, hdata]
    rfl
  refine ⟨kbh, hash, hheader, hhash, ?_, fun _ h => absurd h List.not_mem_nil, rfl, ?_, ?_⟩
  · show (if kbh.fields .mKeyHeight = 0 then operatorHash else none) = some hash
    rw [if_pos hheight, operatorHash, hheader]
    exact hhash
  · rw [hpaid]
    decide
  · rw [getMinersID, hkey, if_pos (by decide)]
    exact congrArg Option.isSome (Ledger.findByID_save _ _ _)

theorem sample_accepted_only_for_fraud :
    (∀ v, AcceptedAgainst sampleVerifiables sampleChain [] {} 0 operatorHeader v →
        ∃ proof, getPoFProof sampleVerifiables v.mProof = some proof ∧
          Fraud sampleVerifiables proof) ↔
      ∀ kbh hash, instantiateHeader sampleVerifiables operatorHeader = some kbh →
        ¬Penalizable sampleVerifiables sampleChain [] kbh hash :=
  accepted_only_for_fraud_iff sampleVerifiables_documented sampleChain [] {} 0 (by decide +kernel)

/-- What a reporter makes of the header of the key block alone. -/
def forgedProof : PoolVerifiable where
  mVerifiableType := .proofOfFraud
  mProof := (setPoFProof operatorHeader operatorHeader operatorHeader).getD []
  mPubKey := sampleKey 1
  mSignature := sampleKey 1

theorem forgedProof_verifySignature : forgedProof.verifySignature sampleVerifiables = true := by
  have hsome : forgedProof.mSignature ≠ [] := (by decide : sampleKey 1 ≠ [])
  have hkey : forgedProof.mPubKey.length = 32 := (by decide : (sampleKey 1).length = 32)
  rw [CVerifiable.verifySignature, if_neg hsome, if_neg (not_not_intro hkey)]
  exact decide_eq_true (p := sampleKey 1 = sampleKey 1) rfl

theorem forgedProof_getPoFProof {kbh : CBlockHeader Bytes}
    (hheader : instantiateHeader sampleVerifiables operatorHeader = some kbh) :
    getPoFProof sampleVerifiables forgedProof.mProof = some ⟨kbh, kbh, kbh⟩ := by
  have hne := ne_nil_of_instantiateHeader hheader
  have hlen : operatorHeader.length + operatorHeader.length + operatorHeader.length + 21 < 2 ^ 32 := by
    decide +kernel
  obtain ⟨mProof, hset, hbodies⟩ := getPoFBodies_setPoFProof hne hne hne hlen
  have hcarried : forgedProof.mProof = mProof := by
    show (setPoFProof operatorHeader operatorHeader operatorHeader).getD [] = mProof
    rw [hset, Option.getD_some]
  rw [hcarried]
  exact getPoFProof_same hheader hbodies

/-- It is accepted, although the operator signed no data block. -/
theorem honest_operator_penalized :
    (∃ armed, verifyActuateAndArm sampleVerifiables sampleChain [] {} forgedProof 0 =
        .ok (some armed)) ∧
      ∃ proof, getPoFProof sampleVerifiables forgedProof.mProof = some proof ∧
        ¬Fraud sampleVerifiables proof := by
  obtain ⟨kbh, hash, hheader, hpenalizable⟩ := sample_penalizable
  have hproof := forgedProof_getPoFProof hheader
  refine ⟨?_, _, hproof, fun hfraud => hfraud.different rfl⟩
  rw [verifyActuateAndArm_proofOfFraud rfl]
  exact (verifyProofOfFraud_iff sampleVerifiables_documented).mpr
    ⟨forgedProof_verifySignature, _, hash, hproof, hpenalizable⟩

end Sample

end Gridnet
