import Gridnet.EpochAccounting
import Gridnet.RewardPayment

/-! The reward that `formBlock` writes into a block against the one that `endFlow` computes for it. The verification
repeats the turns that added a verifiable. Once a candidate was refused nothing is added any more, but proofs of fraud
that are still processed go on to raise the reward. -/

namespace Gridnet

open Ber ASN1_Tag

variable {Trie : Type} {S : RewardServices Trie} {chain : ChainView} {keyHeight : UInt64}

/-! ### A verifiable is processed alike -/

/-- What processing a verifiable that is no operator's reward asks of the block. -/
structure SameKind (block block' : RewardedBlock) : Prop where
  isKeyBlock : block'.isKeyBlock = block.isKeyBlock
  isGenesis : block'.isGenesis = block.isGenesis
  height : block'.height = block.height

section Alike

variable {receiptID : Bytes} {st : RewardState} {v w : PoolVerifiable} {block block' : RewardedBlock}

theorem issueVerifiable_plain (htype : v.mVerifiableType ≠ .minerReward) (hsame : w.toCVerifiable = v.toCVerifiable) :
    issueVerifiable S block' w receiptID st = issueVerifiable S block v receiptID st := by
  unfold issueVerifiable
  rw [hsame]
  cases hcase : v.mVerifiableType with
  | minerReward => exact absurd hcase htype
  | _ => rfl

theorem verifyActuateAndArm_copied {mInFlowLinks : List CLinkContainer} {reward : BigInt}
    (htype : v.mVerifiableType ≠ .minerReward) :
    verifyActuateAndArm S.toVerifiableServices chain mInFlowLinks block v.copied reward =
      match acceptsVerifiable S.toVerifiableServices chain mInFlowLinks block.isGenesis v.toCVerifiable with
      | .error e => .error e
      | .ok accepted => .ok (if accepted then some v.copied.arm else none) :=
  verifyActuateAndArm_plain (v := v.copied) htype

/-- Neither the marks of the pool nor the rest of the block count. -/
theorem processVerifiable_plain (htype : v.mVerifiableType ≠ .minerReward) (hsame : w.toCVerifiable = v.toCVerifiable)
    (hkind : SameKind block block') :
    processVerifiable S chain keyHeight block' w receiptID st =
      processVerifiable S chain keyHeight block v receiptID st := by
  have hplain : w.mVerifiableType ≠ .minerReward := by
    rw [hsame]
    exact htype
  have harmed : ∀ x : PoolVerifiable, x.copied.arm.isArmed = true := fun x => Bool.true_or _
  have hresult : ∀ receiptID, verifiableResult S chain keyHeight block' w receiptID st =
      verifiableResult S chain keyHeight block v receiptID st := by
    intro receiptID
    have hissue : issueVerifiable S block' w.copied.arm receiptID st =
        issueVerifiable S block v.copied.arm receiptID st := issueVerifiable_plain htype hsame
    unfold verifiableResult
    rw [verifyActuateAndArm_copied hplain, verifyActuateAndArm_copied htype, hkind.isGenesis, hkind.isKeyBlock, hsame]
    cases acceptsVerifiable S.toVerifiableServices chain st.mInFlowLinks block.isGenesis v.toCVerifiable with
    | error e => rfl
    | ok accepted =>
        cases accepted with
        | false => rfl
        | true => simp only [if_true, harmed, hissue]
  unfold processVerifiable
  dsimp only
  rw [hresult, hsame]

theorem verifiableReceiptID_self (v : CVerifiable) :
    verifiableReceiptID S v (S.getReceiptIDForVerifiable v) = S.getReceiptIDForVerifiable v := by
  unfold verifiableReceiptID
  split_ifs <;> rfl

end Alike

/-! ### Turns that form a block -/

/-- A candidate that is accepted and processed. -/
structure Taken (S : RewardServices Trie) (chain : ChainView) (keyHeight : UInt64) (v : PoolVerifiable)
    (flow : VerifiableFlow) (receipt : CReceipt) (st : RewardState) : Prop where
  unmarked : v.HotProperties.markedAsProcessed = false
  legal : legalVerifiable flow.block v.mVerifiableType = true
  accepted : acceptsVerifiable S.toVerifiableServices chain flow.toRewardState.mInFlowLinks flow.block.isGenesis
    v.toCVerifiable = .ok true
  processed : processVerifiable S chain keyHeight flow.block.toRewardedBlock v
    (S.getReceiptIDForVerifiable v.toCVerifiable) flow.toRewardState = .ok (receipt, st)
  valid : receipt.mResult = .valid

/-- What a turn of `formBlock` does. -/
inductive CandidateTurn (S : RewardServices Trie) (chain : ChainView) (keyHeight : UInt64) (v : PoolVerifiable)
    (flow : VerifiableFlow) : VerifiableTurn → VerifiableFlow → Prop where
  | rejected : CandidateTurn S chain keyHeight v flow .reject flow
  | skipped : CandidateTurn S chain keyHeight v flow .proceed flow
  | refused {older : List Ledger} {st : RewardState} :
      st.rewardValidatedUpToNow = flow.toRewardState.rewardValidatedUpToNow →
      CandidateTurn S chain keyHeight v flow .proceed { flow with older, toRewardState := st, addToBlock := false }
  | taken {receipt : CReceipt} {st : RewardState} : Taken S chain keyHeight v flow receipt st →
      CandidateTurn S chain keyHeight v flow .proceed
        { flow with
          block := if flow.addToBlock then flow.block.addVerifiable v.toCVerifiable else flow.block
          toRewardState := st
          receipts := flow.receipts ++ [receipt] }

section Turns

variable {v v' : PoolVerifiable} {flow flow' : VerifiableFlow} {phantomMode : Bool} {turn : VerifiableTurn}
  {receipt : CReceipt} {st : RewardState}

theorem stepBack_some {back : VerifiableFlow} (hback : flow.stepBack = .ok back) :
    ∃ older st, back = { flow with older, toRewardState := st } ∧
      st.rewardValidatedUpToNow = flow.toRewardState.rewardValidatedUpToNow := by
  unfold VerifiableFlow.stepBack at hback
  split at hback
  case h_1 => cases hback
  case h_2 =>
    cases hback
    exact ⟨_, _, rfl, rfl⟩

theorem endOfTurn_flow {mode : ProcessingMode} (v : PoolVerifiable) (flow : VerifiableFlow) :
    (endOfTurn mode v flow).2 =
      { flow with block := if flow.addToBlock then flow.block.addVerifiable v.toCVerifiable else flow.block } := by
  unfold endOfTurn
  split_ifs <;> rfl

/-- A turn for a candidate that is no operator's reward. -/
theorem judgeVerifiable_plain {mode : ProcessingMode} (htype : v.mVerifiableType ≠ .minerReward) :
    judgeVerifiable S mode chain keyHeight v flow =
      match acceptsVerifiable S.toVerifiableServices chain flow.toRewardState.mInFlowLinks flow.block.isGenesis
          v.toCVerifiable with
      | .error e => .error (.fault e)
      | .ok false =>
          if mode.verifyAgainstBlock then .ok (.reject, v, flow)
          else .ok (.proceed, v, { flow with addToBlock := false })
      | .ok true =>
          match blockReceiptForVerifiable S mode flow.block v.toCVerifiable with
          | none => .ok (.reject, v, flow)
          | some blockReceipt =>
              match processVerifiable S chain keyHeight flow.block.toRewardedBlock v
                  (receiptIDForVerifiable S mode blockReceipt v.toCVerifiable) flow.toRewardState with
              | .error e => .error e
              | .ok (receipt, toRewardState) =>
                  afterProcessing mode v blockReceipt receipt { flow with toRewardState } := by
  have harmed : ∀ receiptID, processVerifiable S chain keyHeight flow.block.toRewardedBlock v.copied.arm receiptID
      flow.toRewardState =
        processVerifiable S chain keyHeight flow.block.toRewardedBlock v receiptID flow.toRewardState :=
    fun _ => processVerifiable_plain htype rfl ⟨rfl, rfl, rfl⟩
  unfold judgeVerifiable
  rw [verifyActuateAndArm_copied htype]
  cases acceptsVerifiable S.toVerifiableServices chain flow.toRewardState.mInFlowLinks flow.block.isGenesis
      v.toCVerifiable with
  | error e => rfl
  | ok accepted =>
      cases accepted with
      | false => rfl
      | true =>
          dsimp only
          rw [if_pos rfl]
          dsimp only
          cases blockReceiptForVerifiable S mode flow.block v.toCVerifiable with
          | none => rfl
          | some blockReceipt =>
              dsimp only
              rewrite [harmed]
              rfl

theorem candidateTurn (htype : v.mVerifiableType ≠ .minerReward)
    (hturn : verifiableTurn S (formationRun phantomMode) chain keyHeight v flow = .ok (turn, v', flow')) :
    CandidateTurn S chain keyHeight v flow turn flow' := by
  unfold verifiableTurn at hturn
  split_ifs at hturn with hmarked hlegal
  · cases hturn
    exact .skipped
  · cases hturn
    exact .rejected
  · rw [judgeVerifiable_plain htype] at hturn
    cases haccepts : acceptsVerifiable S.toVerifiableServices chain flow.toRewardState.mInFlowLinks
        flow.block.isGenesis v.toCVerifiable with
    | error e =>
        rw [haccepts] at hturn
        cases hturn
    | ok accepted =>
        rw [haccepts] at hturn
        cases accepted with
        | false =>
            cases hturn
            exact .refused rfl
        | true =>
            have hlisted : blockReceiptForVerifiable S (formationRun phantomMode) flow.block v.toCVerifiable =
              some {} := rfl
            have hreceiptID : receiptIDForVerifiable S (formationRun phantomMode) {} v.toCVerifiable =
              S.getReceiptIDForVerifiable v.toCVerifiable := rfl
            rw [hlisted] at hturn
            dsimp only at hturn
            rw [hreceiptID] at hturn
            cases hprocess : processVerifiable S chain keyHeight flow.block.toRewardedBlock v
                (S.getReceiptIDForVerifiable v.toCVerifiable) flow.toRewardState with
            | error e =>
                rw [hprocess] at hturn
                cases hturn
            | ok outcome =>
                obtain ⟨receipt, st⟩ := outcome
                have hopen : ¬((formationRun phantomMode).verifyAgainstBlock = true ∧
                  receipt.mResult ≠ ({} : CReceipt).mResult) := fun h => Bool.false_ne_true h.1
                rw [hprocess] at hturn
                dsimp only at hturn
                by_cases hvalid : receipt.mResult = .valid
                · rw [afterProcessing_valid hvalid, if_neg hopen] at hturn
                  have htaken : Taken S chain keyHeight v flow receipt st :=
                    ⟨Bool.eq_false_of_not_eq_true hmarked, Bool.of_not_eq_false hlegal, haccepts, hprocess, hvalid⟩
                  obtain ⟨rfl, hend⟩ := Prod.mk.inj (Except.ok.inj hturn)
                  replace hend := congrArg Prod.snd hend
                  rw [endOfTurn_flow] at hend
                  subst hend
                  exact .taken htaken
                · rw [afterProcessing_invalid hvalid, if_neg hopen] at hturn
                  have hreward : st.rewardValidatedUpToNow = flow.toRewardState.rewardValidatedUpToNow :=
                    (processVerifiable_reward hprocess).resolve_right fun h => hvalid h.2.1
                  cases hback : VerifiableFlow.stepBack { flow with toRewardState := st } with
                  | error e =>
                      rw [hback] at hturn
                      cases hturn
                  | ok back =>
                      rw [hback] at hturn
                      obtain ⟨older, st', rfl, hsame⟩ := stepBack_some hback
                      obtain ⟨rfl, hend⟩ := Prod.mk.inj (Except.ok.inj hturn)
                      replace hend := congrArg Prod.snd hend
                      rw [endOfTurn_flow] at hend
                      subst hend
                      exact .refused (hsame.trans hreward)

theorem Taken.reward (htaken : Taken S chain keyHeight v flow receipt st) :
    st.rewardValidatedUpToNow = flow.toRewardState.rewardValidatedUpToNow +
      if v.mVerifiableType = .proofOfFraud then S.getRewardForPoFProcessing else 0 := by
  split_ifs with hfraud
  · rcases processVerifiable_fraud hfraud htaken.processed with ⟨hinvalid, -⟩ | ⟨-, _, _, -, hsettled⟩
    · exact absurd (hinvalid.symm.trans htaken.valid) (by decide)
    · exact hsettled.reward
  · rw [show (0 : BigInt) = 0#256 from rfl, BitVec.add_zero]
    exact (processVerifiable_reward htaken.processed).resolve_right fun h => hfraud h.1

theorem Taken.receiptIDs (htaken : Taken S chain keyHeight v flow receipt st) :
    receipt.mVerifiableID = S.getHash v.toCVerifiable ∧
      receipt.mGUID = S.getReceiptIDForVerifiable v.toCVerifiable := by
  have hprocess := htaken.processed
  unfold processVerifiable at hprocess
  dsimp only at hprocess
  rw [verifiableReceiptID_self] at hprocess
  split at hprocess
  case h_1 => cases hprocess
  case h_2 =>
    cases hprocess
    exact ⟨rfl, rfl⟩

/-- A verifiable of a block as other nodes receive it. -/
def CVerifiable.received (v : CVerifiable) : PoolVerifiable := { toCVerifiable := v }

/-- A block has a receipt for a verifiable that says what its formation said. -/
def Listed (S : RewardServices Trie) (block : ReceiptedBlock) (v : CVerifiable) : Prop :=
  ∃ receipt, block.getReceiptForVerifiable (S.getHash v) = some receipt ∧
    receipt.mGUID = S.getReceiptIDForVerifiable v ∧ receipt.mResult = .valid

/-- A turn that took a candidate is repeated by one that verifies it. -/
theorem Taken.repeated (htaken : Taken S chain keyHeight v flow receipt st)
    (htype : v.mVerifiableType ≠ .minerReward) {sv : VerifiableFlow}
    (hkind : SameKind flow.block.toRewardedBlock sv.block.toRewardedBlock)
    (hstate : sv.toRewardState = flow.toRewardState) (hclosed : sv.addToBlock = false)
    (hlisted : Listed S sv.block v.toCVerifiable) :
    ∃ receipts, verifiableTurn S dryRun chain keyHeight v.toCVerifiable.received sv =
      .ok (.proceed, v.toCVerifiable.received, { sv with toRewardState := st, receipts }) := by
  obtain ⟨blockReceipt, hfound, hguid, hresult⟩ := hlisted
  have hplain : v.toCVerifiable.received.mVerifiableType ≠ .minerReward := htype
  have hunmarked : ¬v.toCVerifiable.received.HotProperties.markedAsProcessed = true := Bool.false_ne_true
  have hlegal : ¬legalVerifiable sv.block v.toCVerifiable.received.mVerifiableType = false := by
    have hsame : legalVerifiable sv.block v.mVerifiableType = legalVerifiable flow.block v.mVerifiableType := by
      unfold legalVerifiable
      rw [hkind.isKeyBlock, hkind.height]
    exact fun hillegal => absurd ((hsame.trans htaken.legal).symm.trans hillegal) nofun
  have haccepted : acceptsVerifiable S.toVerifiableServices chain sv.toRewardState.mInFlowLinks sv.block.isGenesis
      v.toCVerifiable.received.toCVerifiable = .ok true := by
    rw [hstate, hkind.isGenesis]
    exact htaken.accepted
  have hreceipt : blockReceiptForVerifiable S dryRun sv.block v.toCVerifiable.received.toCVerifiable = some blockReceipt := hfound
  have hreceiptID : receiptIDForVerifiable S dryRun blockReceipt v.toCVerifiable.received.toCVerifiable =
      S.getReceiptIDForVerifiable v.toCVerifiable := hguid
  have hprocess : processVerifiable S chain keyHeight sv.block.toRewardedBlock v.toCVerifiable.received
      (S.getReceiptIDForVerifiable v.toCVerifiable) sv.toRewardState = .ok (receipt, st) := by
    rw [hstate]
    exact (processVerifiable_plain (w := v.toCVerifiable.received) htype rfl hkind).trans htaken.processed
  have hagrees : ¬(dryRun.verifyAgainstBlock = true ∧ receipt.mResult ≠ blockReceipt.mResult) :=
    fun h => h.2 (htaken.valid.trans hresult.symm)
  have hjudged : judgeVerifiable S dryRun chain keyHeight v.toCVerifiable.received sv =
      .ok (.proceed, v.toCVerifiable.received,
        { sv with toRewardState := st, receipts := sv.receipts ++ [blockReceipt] }) := by
    rw [judgeVerifiable_plain hplain, haccepted]
    dsimp only
    rw [hreceipt]
    dsimp only
    rw [hreceiptID, hprocess]
    dsimp only
    rw [afterProcessing_valid htaken.valid, if_neg hagrees]
    rfl
  refine ⟨sv.receipts ++ [blockReceipt], ?_⟩
  unfold verifiableTurn
  rw [if_neg hunmarked, if_neg hlegal, hjudged]
  dsimp only
  unfold endOfTurn
  dsimp only
  rw [hclosed]
  rfl

end Turns

/-! ### Runs -/

/-- How many proofs of fraud are processed after a candidate was refused. -/
def lateFrauds (S : RewardServices Trie) (mode : ProcessingMode) (chain : ChainView) (keyHeight : UInt64)
    (running : ℕ → Bool) : List PoolVerifiable → VerifiableFlow → ℕ
  | [], _ => 0
  | v :: vs, flow =>
      if running vs.length then
        match verifiableTurn S mode chain keyHeight v flow with
        | .ok (.proceed, _, flow') =>
            (if flow.addToBlock = false ∧ v.mVerifiableType = .proofOfFraud ∧ flow'.receipts ≠ flow.receipts then 1
              else 0) + lateFrauds S mode chain keyHeight running vs flow'
        | _ => 0
      else 0

section Runs

variable {phantomMode : Bool} {running : ℕ → Bool} {vs vs' : List PoolVerifiable} {flow flow' : VerifiableFlow}
  {answer : Bool}

/-- What a run of `formBlock` over candidates is made of: its turns, one after the other. -/
inductive CandidateRun (S : RewardServices Trie) (chain : ChainView) (keyHeight : UInt64) :
    List PoolVerifiable → VerifiableFlow → VerifiableFlow → ℕ → Prop where
  | done {vs : List PoolVerifiable} {flow : VerifiableFlow} : CandidateRun S chain keyHeight vs flow flow 0
  | turn {v : PoolVerifiable} {vs : List PoolVerifiable} {flow flow₁ flow' : VerifiableFlow} {late : ℕ} :
      CandidateTurn S chain keyHeight v flow .proceed flow₁ →
      CandidateRun S chain keyHeight vs flow₁ flow' late →
      CandidateRun S chain keyHeight (v :: vs) flow flow'
        ((if flow.addToBlock = false ∧ v.mVerifiableType = .proofOfFraud ∧ flow₁.receipts ≠ flow.receipts then 1
          else 0) + late)

theorem candidateRun_of_loop (hplain : ∀ v ∈ vs, v.mVerifiableType ≠ .minerReward)
    (hloop : verifiableLoop S (formationRun phantomMode) chain keyHeight running vs flow = .ok (answer, vs', flow')) :
    CandidateRun S chain keyHeight vs flow flow'
      (lateFrauds S (formationRun phantomMode) chain keyHeight running vs flow) := by
  induction vs generalizing flow answer vs' with
  | nil =>
      cases hloop
      exact .done
  | cons v vs ih =>
      obtain ⟨hv, hplain⟩ := List.forall_mem_cons.mp hplain
      unfold verifiableLoop at hloop
      unfold lateFrauds
      split_ifs at hloop ⊢ with hrunning
      · cases hturn : verifiableTurn S (formationRun phantomMode) chain keyHeight v flow with
        | error e =>
            rw [hturn] at hloop
            cases hloop
        | ok outcome =>
            obtain ⟨turn, v₁, flow₁⟩ := outcome
            rw [hturn] at hloop
            have hformed := candidateTurn hv hturn
            cases turn with
            | reject =>
                cases hloop
                cases hformed
                exact .done
            | proceed =>
                dsimp only at hloop ⊢
                cases hrest : verifiableLoop S (formationRun phantomMode) chain keyHeight running vs flow₁ with
                | error e =>
                    rw [hrest] at hloop
                    cases hloop
                | ok outcome =>
                    rw [hrest] at hloop
                    cases hloop
                    exact .turn hformed (ih hplain hrest)
      · cases hloop
        exact .done

theorem CandidateRun.late_le {late : ℕ} (hrun : CandidateRun S chain keyHeight vs flow flow' late) :
    late ≤ vs.length := by
  induction hrun with
  | done => exact Nat.zero_le _
  | turn _ _ ih =>
      rw [List.length_cons]
      split_ifs <;> omega

/-- Receipts are issued for candidates that are valid, and none is lost. -/
theorem CandidateRun.receipts {late : ℕ} (hrun : CandidateRun S chain keyHeight vs flow flow' late) :
    ∃ receipts, flow'.receipts = flow.receipts ++ receipts ∧ ∀ receipt ∈ receipts, receipt.mResult = .valid ∧
      ∃ v ∈ vs, receipt.mVerifiableID = S.getHash v.toCVerifiable ∧
        receipt.mGUID = S.getReceiptIDForVerifiable v.toCVerifiable := by
  induction hrun with
  | done => exact ⟨[], (List.append_nil _).symm, nofun⟩
  | @turn v vs flow flow₁ flow' late hturn _ ih =>
      obtain ⟨receipts, hreceipts, hissued⟩ := ih
      have hlater : ∀ receipt ∈ receipts, receipt.mResult = .valid ∧
          ∃ w ∈ v :: vs, receipt.mVerifiableID = S.getHash w.toCVerifiable ∧
            receipt.mGUID = S.getReceiptIDForVerifiable w.toCVerifiable := by
        intro receipt hmem
        obtain ⟨hvalid, w, hw, hids⟩ := hissued receipt hmem
        exact ⟨hvalid, w, List.mem_cons_of_mem _ hw, hids⟩
      cases hturn with
      | skipped => exact ⟨receipts, hreceipts, hlater⟩
      | refused _ => exact ⟨receipts, hreceipts, hlater⟩
      | @taken receipt st htaken =>
          refine ⟨receipt :: receipts, ?_, List.forall_mem_cons.mpr
            ⟨⟨htaken.valid, v, List.mem_cons_self, htaken.receiptIDs⟩, hlater⟩⟩
          rw [hreceipts, List.append_assoc]
          rfl

/-- Once a candidate was refused nothing is added, and every proof of fraud that is processed is late. -/
theorem CandidateRun.closed {late : ℕ} (hrun : CandidateRun S chain keyHeight vs flow flow' late)
    (hclosed : flow.addToBlock = false) :
    flow'.block = flow.block ∧ flow'.toRewardState.rewardValidatedUpToNow =
      flow.toRewardState.rewardValidatedUpToNow + BitVec.ofNat 256 late * S.getRewardForPoFProcessing := by
  induction hrun with
  | done =>
      refine ⟨rfl, ?_⟩
      rw [BitVec.zero_mul, BitVec.add_zero]
  | @turn v vs flow flow₁ flow' late hturn _ ih =>
      cases hturn with
      | skipped =>
          rw [if_neg fun h => h.2.2 rfl, Nat.zero_add]
          exact ih hclosed
      | refused hsame =>
          obtain ⟨hblock, hreward⟩ := ih rfl
          rw [if_neg fun h => h.2.2 rfl, Nat.zero_add]
          exact ⟨hblock, hreward.trans (congrArg (· + _) hsame)⟩
      | @taken receipt st htaken =>
          obtain ⟨hblock, hreward⟩ := ih hclosed
          have hissued : flow.receipts ++ [receipt] ≠ flow.receipts :=
            fun hsame => List.cons_ne_nil _ _ (List.append_right_eq_self.mp hsame)
          refine ⟨hblock.trans (by rw [hclosed]; rfl), ?_⟩
          rw [hreward, htaken.reward]
          by_cases hfraud : v.mVerifiableType = .proofOfFraud
          · rw [if_pos hfraud, if_pos ⟨hclosed, hfraud, hissued⟩, BitVec.ofNat_add, BitVec.add_mul, BitVec.one_mul,
              BitVec.add_assoc]
          · rw [if_neg hfraud, if_neg fun h => hfraud h.2.1, Nat.zero_add]
            exact congrArg (· + _) (BitVec.add_zero _)

/-- The verification of what was added repeats the run up to the first candidate that was refused. -/
theorem CandidateRun.repeated {late : ℕ} (hrun : CandidateRun S chain keyHeight vs flow flow' late)
    (hplain : ∀ v ∈ vs, v.mVerifiableType ≠ .minerReward) (hopen : flow.addToBlock = true)
    (hrunning : ∀ n, running n = true) :
    ∃ us : List CVerifiable, flow'.block = { flow.block with verifiables := flow.block.verifiables ++ us } ∧
      us.length + late ≤ vs.length ∧
      (∀ u ∈ us, (∃ v ∈ vs, v.toCVerifiable = u) ∧ ∃ receipt ∈ flow'.receipts, receipt.mVerifiableID = S.getHash u) ∧
      ∀ sv : VerifiableFlow, SameKind flow.block.toRewardedBlock sv.block.toRewardedBlock →
        sv.toRewardState = flow.toRewardState → sv.addToBlock = false → (∀ u ∈ us, Listed S sv.block u) →
        ∃ sv', verifiableLoop S dryRun chain keyHeight running (us.map CVerifiable.received) sv =
            .ok (true, us.map CVerifiable.received, sv') ∧
          flow'.toRewardState.rewardValidatedUpToNow =
            sv'.toRewardState.rewardValidatedUpToNow + BitVec.ofNat 256 late * S.getRewardForPoFProcessing := by
  induction hrun with
  | @done vs flow =>
      refine ⟨[], ?_, Nat.zero_le _, nofun, fun sv _ hstate _ _ => ⟨sv, rfl, ?_⟩⟩
      · rw [List.append_nil]
      · rw [hstate, BitVec.zero_mul, BitVec.add_zero]
  | @turn v vs flow flow₁ flow' late hturn hrest ih =>
      obtain ⟨hv, hplain⟩ := List.forall_mem_cons.mp hplain
      have hlate : ¬(flow.addToBlock = false ∧ v.mVerifiableType = .proofOfFraud ∧
        flow₁.receipts ≠ flow.receipts) := fun h => absurd (h.1.symm.trans hopen) nofun
      rw [if_neg hlate, Nat.zero_add, List.length_cons]
      cases hturn with
      | skipped =>
          obtain ⟨us, hblock, hlength, hadded, hrepeat⟩ := ih hplain hopen
          refine ⟨us, hblock, Nat.le_succ_of_le hlength, fun u hu => ?_, hrepeat⟩
          obtain ⟨⟨w, hw, hsame⟩, hreceipt⟩ := hadded u hu
          exact ⟨⟨w, List.mem_cons_of_mem _ hw, hsame⟩, hreceipt⟩
      | refused hsame =>
          obtain ⟨hblock, hreward⟩ := hrest.closed rfl
          refine ⟨[], ?_, ?_, nofun, fun sv _ hstate _ _ => ⟨sv, rfl, ?_⟩⟩
          · rw [hblock, List.append_nil]
          · rw [List.length_nil, Nat.zero_add]
            exact Nat.le_succ_of_le hrest.late_le
          · rw [hreward, hsame, hstate]
      | @taken receipt st htaken =>
          obtain ⟨us, hblock, hlength, hadded, hrepeat⟩ := ih hplain hopen
          rw [if_pos hopen] at hblock hrepeat
          refine ⟨v.toCVerifiable :: us, ?_, ?_, ?_, ?_⟩
          · rw [hblock]
            simp [ReceiptedBlock.addVerifiable]
          · rw [List.length_cons]
            omega
          · refine List.forall_mem_cons.mpr ⟨⟨⟨v, List.mem_cons_self, rfl⟩, receipt, ?_, htaken.receiptIDs.1⟩, ?_⟩
            · obtain ⟨receipts, hreceipts, -⟩ := hrest.receipts
              rw [hreceipts]
              simp
            · intro u hu
              obtain ⟨⟨w, hw, hsame⟩, hreceipt⟩ := hadded u hu
              exact ⟨⟨w, List.mem_cons_of_mem _ hw, hsame⟩, hreceipt⟩
          · intro sv hkind hstate hclosed hlisted
            obtain ⟨hlistedV, hlisted⟩ := List.forall_mem_cons.mp hlisted
            obtain ⟨receipts, hverified⟩ := htaken.repeated hv hkind hstate hclosed hlistedV
            obtain ⟨sv', hloop, hreward⟩ := hrepeat { sv with toRewardState := st, receipts }
              ⟨hkind.isKeyBlock, hkind.isGenesis, hkind.height⟩ rfl hclosed hlisted
            refine ⟨sv', ?_, hreward⟩
            rw [List.map_cons, verifiableLoop, if_pos (hrunning _), hverified]
            dsimp only
            rw [hloop]

end Runs

/-! ### What a turn keeps -/

section Keeps

variable {mode : ProcessingMode} {v v' : PoolVerifiable} {flow flow' : VerifiableFlow} {turn : VerifiableTurn}

/-- Processing leaves the block and the receipts there are as they are, and never adds again what it added no more. -/
structure Keeps (v v' : PoolVerifiable) (flow flow' : VerifiableFlow) : Prop where
  verifiable : v'.toCVerifiable = v.toCVerifiable
  block : flow'.block = flow.block
  receipts : flow.receipts <+: flow'.receipts
  closed : flow.addToBlock = false → flow'.addToBlock = false

theorem Keeps.refl (v : PoolVerifiable) (flow : VerifiableFlow) : Keeps v v flow flow := ⟨rfl, rfl, List.prefix_rfl, id⟩

theorem afterProcessing_keeps {blockReceipt receipt : CReceipt}
    (hafter : afterProcessing mode v blockReceipt receipt flow = .ok (turn, v', flow')) : Keeps v v' flow flow' := by
  by_cases hvalid : receipt.mResult = .valid
  · rw [afterProcessing_valid hvalid] at hafter
    split_ifs at hafter
    · cases hafter
      exact .refl _ _
    · cases hafter
      exact ⟨rfl, rfl, List.prefix_append _ _, id⟩
    · cases hafter
      exact ⟨rfl, rfl, List.prefix_append _ _, id⟩
  · rw [afterProcessing_invalid hvalid] at hafter
    by_cases hdiffers : mode.verifyAgainstBlock = true ∧ receipt.mResult ≠ blockReceipt.mResult
    · rw [if_pos hdiffers] at hafter
      cases hafter
      exact .refl _ _
    · rw [if_neg hdiffers] at hafter
      cases hback : flow.stepBack with
      | error e =>
          rw [hback] at hafter
          cases hafter
      | ok back =>
          obtain ⟨older, st, rfl, -⟩ := stepBack_some hback
          rw [hback] at hafter
          dsimp only at hafter
          split_ifs at hafter
          · cases hafter
            exact ⟨rfl, rfl, List.prefix_append _ _, id⟩
          · cases hafter
            exact ⟨rfl, rfl, List.prefix_rfl, fun _ => rfl⟩
          · cases hafter
            exact ⟨rfl, rfl, List.prefix_append _ _, id⟩
          · cases hafter
            exact ⟨rfl, rfl, List.prefix_rfl, fun _ => rfl⟩

theorem judgeVerifiable_keeps (hjudge : judgeVerifiable S mode chain keyHeight v flow = .ok (turn, v', flow')) :
    Keeps v v' flow flow' := by
  unfold judgeVerifiable at hjudge
  split at hjudge
  case h_1 => cases hjudge
  case h_2 =>
    split_ifs at hjudge
    · cases hjudge
      exact .refl _ _
    · cases hjudge
      exact ⟨rfl, rfl, List.prefix_rfl, fun _ => rfl⟩
  case h_3 =>
    split at hjudge
    case h_1 =>
      cases hjudge
      exact .refl _ _
    case h_2 =>
      split at hjudge
      case h_1 => cases hjudge
      case h_2 =>
        have hkeeps := afterProcessing_keeps hjudge
        exact ⟨hkeeps.verifiable, hkeeps.block, hkeeps.receipts, hkeeps.closed⟩

/-- A turn adds its verifiable to the block, or nothing; a turn that verifies adds nothing. -/
theorem verifiableTurn_block (hturn : verifiableTurn S mode chain keyHeight v flow = .ok (turn, v', flow')) :
    flow.receipts <+: flow'.receipts ∧
      (flow'.block = flow.block ∨ flow'.block = flow.block.addVerifiable v.toCVerifiable) ∧
      (flow.addToBlock = false → flow'.addToBlock = false ∧ flow'.block = flow.block) := by
  unfold verifiableTurn at hturn
  split_ifs at hturn
  · cases hturn
    exact ⟨List.prefix_rfl, .inl rfl, fun h => ⟨h, rfl⟩⟩
  · cases hturn
    exact ⟨List.prefix_rfl, .inl rfl, fun h => ⟨h, rfl⟩⟩
  · split at hturn
    case h_1 => cases hturn
    case h_2 hjudge =>
      cases hturn
      have hkeeps := judgeVerifiable_keeps hjudge
      exact ⟨hkeeps.receipts, .inl hkeeps.block, fun h => ⟨hkeeps.closed h, hkeeps.block⟩⟩
    case h_3 judged after hjudge =>
      have hkeeps := judgeVerifiable_keeps hjudge
      obtain ⟨rfl, hend⟩ := Prod.mk.inj (Except.ok.inj hturn)
      replace hend := congrArg Prod.snd hend
      rw [endOfTurn_flow] at hend
      subst hend
      refine ⟨hkeeps.receipts, ?_, fun h => ⟨hkeeps.closed h, ?_⟩⟩
      · dsimp only
        split_ifs
        · exact .inr (by rw [hkeeps.block, hkeeps.verifiable])
        · exact .inl hkeeps.block
      · dsimp only
        rw [hkeeps.closed h]
        exact hkeeps.block

/-- A run that verifies leaves the block as it is. -/
theorem verifiableLoop_block {running : ℕ → Bool} {vs vs' : List PoolVerifiable} {answer : Bool}
    (hclosed : flow.addToBlock = false)
    (hloop : verifiableLoop S mode chain keyHeight running vs flow = .ok (answer, vs', flow')) :
    flow'.block = flow.block := by
  induction vs generalizing flow answer vs' with
  | nil =>
      cases hloop
      rfl
  | cons v vs ih =>
      unfold verifiableLoop at hloop
      split_ifs at hloop
      · split at hloop
        case h_1 => cases hloop
        case h_2 hturn =>
          cases hloop
          exact ((verifiableTurn_block hturn).2.2 hclosed).2
        case h_3 hturn =>
          obtain ⟨hstays, hblock⟩ := (verifiableTurn_block hturn).2.2 hclosed
          split at hloop
          case h_1 => cases hloop
          case h_2 hrest =>
            cases hloop
            exact (ih hstays hrest).trans hblock
      · cases hloop
        rfl

end Keeps

/-! ### Formation -/

section Formation

variable {context : RewardContext Trie} {fuel : ℕ} {live : LiveBlock Trie} {phantomMode : Bool}
  {proposal block : ReceiptedBlock} {txs : ProcessedTransactions} {candidates : List PoolVerifiable}
  {formed : FormedRewards}

/-- A node while it forms a block, when its manager may be asked to stop at any number of verifiables left. -/
def RewardContext.whileForming (context : RewardContext Trie) (running runningForLeader : ℕ → Bool) :
    RewardContext Trie :=
  { context with running, runningForLeader }

/-- Where `formBlock` begins with the candidates. -/
def formationFlow (proposal : ReceiptedBlock) (txs : ProcessedTransactions) : VerifiableFlow where
  block := proposal
  older := txs.older
  toRewardState := txs.rewardState
  addToBlock := true

/-- The rewards of a block that is formed: the candidates are processed, then the epochs, and the header is set. -/
structure FormsRewards (context : RewardContext Trie) (fuel : ℕ) (live : LiveBlock Trie) (phantomMode : Bool)
    (proposal : ReceiptedBlock) (txs : ProcessedTransactions) (candidates : List PoolVerifiable)
    (formed : FormedRewards) : Prop where
  fees : txs.validatedFees = txs.mTotalGNCFees
  loop : ∃ answer vs', verifiableLoop context.S (formationRun phantomMode) context.chain context.keyHeight
    context.running candidates (formationFlow proposal txs) = .ok (answer, vs', formed.flow)
  epochs : formationEpochs context fuel live formed.flow.toRewardState.rewardValidatedUpToNow =
    some (.ok (some formed.rewardValidatedUpToNow))
  leaderReward : formed.leaderReward = leaderRewardOf proposal.mMinersID formed.rewardValidatedUpToNow
  proposal : formed.proposal =
    { formed.flow.block with
      toRewardedBlock := formed.flow.block.toRewardedBlock.setRewards context.S.toVerifiableServices
        formed.rewardValidatedUpToNow }

theorem formRewards_some
    (hformed : formRewards context fuel live phantomMode proposal txs candidates = some (.ok (some formed))) :
    FormsRewards context fuel live phantomMode proposal txs candidates formed := by
  unfold formRewards at hformed
  split_ifs at hformed with hfees
  · cases hformed
  · unfold onResult at hformed
    split at hformed
    case h_1 => cases hformed
    case h_2 outcome hloop =>
      obtain ⟨answer, vs', flow⟩ := outcome
      dsimp only at hformed
      by_cases hempty : proposal.isKeyBlock = false ∧ txs.receipts = [] ∧ flow.receipts = []
      · rw [if_pos hempty] at hformed
        cases hformed
      · rw [if_neg hempty] at hformed
        cases hepochs : formationEpochs context fuel live flow.toRewardState.rewardValidatedUpToNow with
        | none =>
            rw [hepochs] at hformed
            cases hformed
        | some result =>
            rw [hepochs] at hformed
            cases result with
            | error e => cases hformed
            | ok reward =>
                cases reward with
                | none => cases hformed
                | some reward =>
                    dsimp only [onReward] at hformed
                    split_ifs at hformed
                    · cases hformed
                    · cases hformed
                      exact ⟨not_not.mp hfees, ⟨answer, vs', hloop⟩, hepochs, rfl, rfl⟩

/-- The verifiable of the operator is the last one of the block, or is left out. -/
theorem finishRewards_some (hfinished : finishRewards context formed = .ok (some block)) :
    ∃ us receipts, (us = [] ∨ us = [formed.leaderReward]) ∧ block =
      { formed.proposal with
        verifiables := formed.proposal.verifiables ++ us
        verifiableReceipts := formed.flow.receipts ++ receipts } := by
  unfold finishRewards at hfinished
  split at hfinished
  case h_1 => cases hfinished
  case h_2 answer vs' flow' hprocess =>
    split_ifs at hfinished
    · cases hfinished
    · cases hfinished
      have hturned : ∀ {turn v'} {after : VerifiableFlow}, verifiableTurn context.S (formationRun true) context.chain
          context.keyHeight { toCVerifiable := formed.leaderReward }
          { formed.flow with
            block := formed.proposal
            toRewardState :=
              { formed.flow.toRewardState with
                rewardValidatedUpToNow := formed.rewardValidatedUpToNow
                rewardIssuedToMinerAfterTAX := formed.proposal.mPaidToLeader }
            addToBlock := true } = .ok (turn, v', after) →
          ∃ us receipts, (us = [] ∨ us = [formed.leaderReward]) ∧
            { after.block with verifiableReceipts := after.receipts } =
              { formed.proposal with
                verifiables := formed.proposal.verifiables ++ us
                verifiableReceipts := formed.flow.receipts ++ receipts } := by
        intro turn v' after hturn
        obtain ⟨⟨receipts, hreceipts⟩, hblock, -⟩ := verifiableTurn_block hturn
        dsimp only at hreceipts hblock
        rcases hblock with hblock | hblock
        · exact ⟨[], receipts, .inl rfl, by rw [hblock, ← hreceipts, List.append_nil]⟩
        · exact ⟨[formed.leaderReward], receipts, .inr rfl, by rw [hblock, ← hreceipts]; rfl⟩
      unfold processVerifiables verifiableLoop at hprocess
      split_ifs at hprocess
      · split at hprocess
        case h_1 => cases hprocess
        case h_2 hturn =>
          cases hprocess
          exact hturned hturn
        case h_3 hturn =>
          cases hprocess
          exact hturned hturn
      · cases hprocess
        exact ⟨[], [], .inl rfl, by rw [List.append_nil, List.append_nil]⟩

/-- The receipts of a formed block are found again. -/
theorem listed_of_issued {receipts later : List CReceipt} {u : CVerifiable}
    (hreceipts : block.verifiableReceipts = receipts ++ later)
    (hissued : ∀ receipt ∈ receipts, receipt.mResult = .valid ∧ ∃ v ∈ candidates,
      receipt.mVerifiableID = S.getHash v.toCVerifiable ∧
        receipt.mGUID = S.getReceiptIDForVerifiable v.toCVerifiable)
    (hdistinct : ∀ v ∈ candidates, S.getHash v.toCVerifiable = S.getHash u → v.toCVerifiable = u)
    (hown : ∃ receipt ∈ receipts, receipt.mVerifiableID = S.getHash u) : Listed S block u := by
  obtain ⟨receipt, hfound⟩ : ∃ receipt, (receipts.find? fun r => r.mVerifiableID = S.getHash u) = some receipt := by
    apply Option.isSome_iff_exists.mp
    rw [List.find?_isSome]
    obtain ⟨receipt, hmem, hID⟩ := hown
    exact ⟨receipt, hmem, decide_eq_true hID⟩
  obtain ⟨hvalid, v, hv, hID, hguid⟩ := hissued receipt (List.mem_of_find?_eq_some hfound)
  have hkey : receipt.mVerifiableID = S.getHash u := of_decide_eq_true (List.find?_some hfound :)
  refine ⟨receipt, ?_, ?_, hvalid⟩
  · rw [ReceiptedBlock.getReceiptForVerifiable, hreceipts, List.find?_append, hfound]
    rfl
  · rw [hguid, hdistinct v hv (hID.symm.trans hkey)]

/-- What the epochs' processing adds to what was validated, in both functions: a share of it in a data block, and in a
key block a number that does not depend on it. -/
theorem formationEpochs_shares {base total : BigInt}
    (hepochs : formationEpochs context fuel live base = some (.ok (some total))) :
    ∃ shares : BigInt → BigInt, total = base + shares base ∧
      (∀ b, flowEpochs context fuel live live.mBlockHeader.isKeyBlock b = some (.ok (true, b + shares b))) ∧
      (live.mBlockHeader.isKeyBlock = false → ∀ b, shares b = context.settings.partialReward .ALeader b) ∧
      (live.mBlockHeader.isKeyBlock = true → ∀ b b', shares b = shares b') := by
  have hown : ∀ b, getEpochReward context.bm context.settings fuel (some live) b .ALeader =
      some (.ok (some (context.settings.partialReward .ALeader
        (context.settings.ownPool live.mBlockHeader b)))) := fun _ => rfl
  unfold formationEpochs at hepochs
  rw [hown] at hepochs
  dsimp only [onReward] at hepochs
  cases hkey : live.mBlockHeader.isKeyBlock with
  | false =>
      have hpast : ∀ b, getEpochReward context.bm context.settings fuel (some live) b .BLeader =
          some (.ok (some 0)) := fun _ => if_pos hkey
      have hpool : ∀ b, context.settings.ownPool live.mBlockHeader b = b := by
        intro b
        rw [RewardSettings.ownPool, hkey, if_neg Bool.false_ne_true]
      rw [hpast] at hepochs
      dsimp only at hepochs
      refine ⟨context.settings.partialReward .ALeader, ?_, ?_, fun _ _ => rfl, fun h => absurd h Bool.false_ne_true⟩
      · rw [hpool] at hepochs
        have htotal := Option.some.inj (Except.ok.inj (Option.some.inj hepochs))
        rw [← htotal]
        exact BitVec.add_zero _
      · intro b
        unfold flowEpochs
        rw [hown, hpool]
        rfl
  | true =>
      have hpool : ∀ b, context.settings.ownPool live.mBlockHeader b =
          context.settings.getCoinbaseRewardForKeyHeight live.mBlockHeader.getKeyHeight := by
        intro b
        rw [RewardSettings.ownPool, hkey, if_pos rfl]
      have hpast : ∀ b b', getEpochReward context.bm context.settings fuel (some live) b .BLeader =
          getEpochReward context.bm context.settings fuel (some live) b' .BLeader := fun _ _ => rfl
      rw [hpool, hpast _ 0] at hepochs
      cases hrun : getEpochReward context.bm context.settings fuel (some live) 0 .BLeader with
      | none =>
          rw [hrun] at hepochs
          cases hepochs
      | some result =>
          rw [hrun] at hepochs
          cases result with
          | error e => cases hepochs
          | ok past =>
              cases past with
              | none => cases hepochs
              | some past =>
                  have htotal := Option.some.inj (Except.ok.inj (Option.some.inj hepochs))
                  refine ⟨fun _ => context.settings.partialReward .ALeader
                    (context.settings.getCoinbaseRewardForKeyHeight live.mBlockHeader.getKeyHeight) + past,
                    ?_, ?_, fun h => absurd h.symm Bool.false_ne_true, fun _ _ _ => rfl⟩
                  · rw [← htotal]
                    exact BitVec.add_assoc ..
                  · intro b
                    unfold flowEpochs
                    rw [hown, hpool]
                    dsimp only [onReward]
                    rw [if_pos rfl, hpast _ 0, hrun]
                    exact congrArg (fun total => some (Except.ok (true, total))) (BitVec.add_assoc ..)

/-! ### The dry pass over a formed block -/

/-- What the dry pass computes where all of a block's verifiables but the operator's are verified. -/
theorem validateReward_of_loop {us : List CVerifiable} {leaderReward : CVerifiable} {flow : VerifiableFlow}
    {rewardUptilNow : BigInt} (hverifiables : block.verifiables = us ++ [leaderReward])
    (htype : leaderReward.mVerifiableType = .minerReward) (hfees : txs.mTotalGNCFees = txs.validatedFees)
    (hloop : verifiableLoop context.S dryRun context.chain context.keyHeight context.running
        (us.map CVerifiable.received)
        { block, older := txs.older, toRewardState := txs.rewardState, addToBlock := false } =
      .ok (true, us.map CVerifiable.received, flow))
    (hepochs : flowEpochs context fuel live block.isKeyBlock flow.toRewardState.rewardValidatedUpToNow =
      some (.ok (true, rewardUptilNow))) :
    validateReward context fuel live block txs = some (.ok { success := true, rewardUptilNow, flow }) := by
  have hcandidates : (inFlowVerifiables block).dropLast = us.map CVerifiable.received := by
    unfold inFlowVerifiables
    rw [hverifiables, List.map_append, List.map_singleton, List.dropLast_concat]
    rfl
  have hleads : ((block.verifiables.getLast?).any fun v => v.mVerifiableType = .minerReward) = true := by
    rw [hverifiables, List.getLast?_concat]
    exact decide_eq_true htype
  unfold validateReward processVerifiables
  dsimp only
  rw [hcandidates, show dryRun.addToBlock = false from rfl, hloop]
  dsimp only [onResult]
  rw [hepochs]
  dsimp only
  rw [hleads, decide_eq_true hfees]
  rfl

theorem getTotalBlockReward_setRewards {S : VerifiableServices Trie} (block : RewardedBlock) (reward : BigInt) :
    (block.setRewards S reward).getTotalBlockReward = reward ∧
      (block.setRewards S reward).getPaidToMiner =
        reward - formationTax (S.getMiningTax block.keyHeight) reward := by
  unfold RewardedBlock.getTotalBlockReward RewardedBlock.getPaidToMiner RewardedBlock.setRewards
  dsimp only
  split_ifs <;> exact ⟨rfl, rfl⟩

end Formation

/-! ### What was formed and what is validated -/

/-- A block that `formBlock` formed, and what it was formed of. The verifiables of the pool are proofs of fraud, and
the first block has the verifiable of its rewards; the operator's own is made on the way. -/
structure RewardFormation (context : RewardContext Trie) where
  running : ℕ → Bool
  runningForLeader : ℕ → Bool
  fuel : ℕ
  live : LiveBlock Trie
  phantomMode : Bool
  proposal : ReceiptedBlock
  txs : ProcessedTransactions
  candidates : List PoolVerifiable
  result : FormedRewards
  block : ReceiptedBlock
  kind : proposal.isKeyBlock = live.mBlockHeader.isKeyBlock
  fresh : proposal.verifiables = []
  plain : ∀ v ∈ candidates, v.mVerifiableType ≠ .minerReward
  distinct : ∀ v ∈ candidates, ∀ w ∈ candidates,
    context.S.getHash v.toCVerifiable = context.S.getHash w.toCVerifiable → v.toCVerifiable = w.toCVerifiable
  formed : formRewards (context.whileForming running runningForLeader) fuel live phantomMode proposal txs candidates =
    some (.ok (some result))
  finished : finishRewards (context.whileForming running runningForLeader) result = .ok (some block)

namespace RewardFormation

variable {context : RewardContext Trie} (b : RewardFormation context)

/-- The dry pass goes well up to the operator's verifiable, and the header and that verifiable say what it computes. -/
structure Confirmed (validated : ValidatedReward) : Prop where
  computed : validateReward context b.fuel b.live b.block b.txs = some (.ok validated)
  success : validated.success = true
  declared : leaderRewardOf b.block.mMinersID validated.rewardUptilNow ∈ b.block.verifiables
  total : b.block.getTotalBlockReward = validated.rewardUptilNow
  paid : b.block.getPaidToMiner =
    validated.rewardUptilNow - formationTax (context.S.getMiningTax b.block.keyHeight) validated.rewardUptilNow

def Agrees : Prop := ∃ validated, b.Confirmed validated

/-- The proofs of fraud that were processed after a candidate was refused. -/
def late : ℕ :=
  lateFrauds context.S (formationRun b.phantomMode) context.chain context.keyHeight b.running b.candidates
    (formationFlow b.proposal b.txs)

/-- The operator's reward can be paid where the candidates and the epochs have left the ledger: nobody asks the manager
to stop, the change of the balance is armed, and the domains are there. -/
structure LeaderPaid : Prop where
  running : b.runningForLeader 0 = true
  armed : b.result.proposal.isCheckpointed = true ∨ context.S.ENABLE_FLOW_DETAILED_LOGS_VERIFIER = true
  treasury : (b.result.flow.toRewardState.ledger.findByID context.S.getTreasuryDomainID).isSome = true ∨
    context.keyHeight = 0
  creditable : Creditable context.S b.result.proposal.toRewardedBlock b.result.flow.toRewardState.ledger
    b.proposal.mMinersID (b.result.rewardValidatedUpToNow -
      formationTax (context.S.getMiningTax b.result.proposal.keyHeight) b.result.rewardValidatedUpToNow)

/-- The operator's reward can be paid, and no proof of fraud was late. -/
def NothingLost : Prop := b.LeaderPaid ∧ b.late = 0

/-- There is a reward for a proof of fraud, and the numbers have room for all of them with their share. -/
structure Fits : Prop where
  rewarded : 0 < context.S.getRewardForPoFProcessing.toNat
  room : (b.txs.validatedFees.toNat + b.candidates.length * context.S.getRewardForPoFProcessing.toNat) *
    (100 + context.settings.getEpochRewardRatio .ALeader) < 2 ^ 256

/-- What the dry pass computes against what was formed: `taken` proofs of fraud were valid in both, and the epochs'
processing adds its shares in both. -/
structure Validates (validated : ValidatedReward) (base : BigInt) (shares : BigInt → BigInt) (taken : ℕ) : Prop where
  computed : validateReward context b.fuel b.live b.block b.txs = some (.ok validated)
  success : validated.success = true
  total : validated.rewardUptilNow = base + shares base
  formed : b.result.rewardValidatedUpToNow =
    base + BitVec.ofNat 256 b.late * context.S.getRewardForPoFProcessing +
      shares (base + BitVec.ofNat 256 b.late * context.S.getRewardForPoFProcessing)
  base : base = b.txs.validatedFees + BitVec.ofNat 256 taken * context.S.getRewardForPoFProcessing
  few : taken + b.late ≤ b.candidates.length
  data : b.live.mBlockHeader.isKeyBlock = false → ∀ r, shares r = context.settings.partialReward .ALeader r
  key : b.live.mBlockHeader.isKeyBlock = true → ∀ r r', shares r = shares r'

theorem validates (hrunning : ∀ n, context.running n = true) (hled : b.result.leaderReward ∈ b.block.verifiables) :
    ∃ validated base shares taken, b.Validates validated base shares taken := by
  have hforms := formRewards_some b.formed
  obtain ⟨answer, vs', hloop⟩ := hforms.loop
  have hrun : CandidateRun context.S context.chain context.keyHeight b.candidates (formationFlow b.proposal b.txs)
      b.result.flow b.late := candidateRun_of_loop b.plain hloop
  obtain ⟨us, hblock, hfew, hadded, hrepeat⟩ := hrun.repeated b.plain rfl hrunning
  obtain ⟨issued, hissued, hvalid⟩ := hrun.receipts
  obtain ⟨leader, receipts, hleader, hfinal⟩ := finishRewards_some b.finished
  have hnew : (formationFlow b.proposal b.txs).block.verifiables ++ us = us := by
    show b.proposal.verifiables ++ us = us
    rw [b.fresh, List.nil_append]
  have hproposal : b.result.proposal.verifiables = us := by
    rw [hforms.proposal, hblock, hnew]
    rfl
  have htype : b.result.leaderReward.mVerifiableType = .minerReward := by
    rw [hforms.leaderReward]
    rfl
  have hverifiables : b.block.verifiables = us ++ [b.result.leaderReward] := by
    rw [hfinal] at hled ⊢
    dsimp only at hled ⊢
    rw [hproposal] at hled ⊢
    rcases hleader with rfl | rfl
    · rw [List.append_nil] at hled
      obtain ⟨v, hv, hsame⟩ := (hadded _ hled).1
      exact absurd ((congrArg CVerifiable.mVerifiableType hsame).trans htype) (b.plain v hv)
    · rfl
  have hstart : (formationFlow b.proposal b.txs).receipts ++ issued = issued := List.nil_append _
  have hlisted : ∀ u ∈ us, Listed context.S b.block u := by
    intro u hu
    obtain ⟨⟨v, hv, rfl⟩, receipt, hreceipt, hID⟩ := hadded u hu
    rw [hissued, hstart] at hreceipt
    have hkept : b.block.verifiableReceipts = issued ++ receipts := by
      rw [hfinal, hissued, hstart]
    exact listed_of_issued hkept hvalid (fun w hw => b.distinct w hw v hv) ⟨receipt, hreceipt, hID⟩
  have hkind : SameKind b.proposal.toRewardedBlock b.block.toRewardedBlock := by
    rw [hfinal, hforms.proposal, hblock]
    exact ⟨rfl, rfl, rfl⟩
  obtain ⟨sv', hverify, hreward⟩ := hrepeat
    { block := b.block, older := b.txs.older, toRewardState := b.txs.rewardState, addToBlock := false }
    hkind rfl rfl hlisted
  obtain ⟨shares, htotal, hflow, hdata, hkey⟩ := formationEpochs_shares hforms.epochs
  obtain ⟨taken, htaken, hbase⟩ := verifiableLoop_reward hverify
  have hkey' : b.block.isKeyBlock = b.live.mBlockHeader.isKeyBlock := hkind.isKeyBlock.trans b.kind
  have hepochs : flowEpochs context b.fuel b.live b.block.isKeyBlock sv'.toRewardState.rewardValidatedUpToNow =
      some (.ok (true, sv'.toRewardState.rewardValidatedUpToNow +
        shares sv'.toRewardState.rewardValidatedUpToNow)) := by
    rw [hkey']
    exact hflow _
  have hlength : taken ≤ us.length :=
    calc taken ≤ (us.map CVerifiable.received).countP (·.mVerifiableType = .proofOfFraud) := htaken
      _ ≤ (us.map CVerifiable.received).length := List.countP_le_length
      _ = us.length := List.length_map ..
  exact ⟨_, sv'.toRewardState.rewardValidatedUpToNow, shares, taken,
    { computed := validateReward_of_loop hverifiables htype hforms.fees.symm hverify hepochs
      success := rfl
      total := rfl
      formed := by rw [htotal, hreward]
      base := hbase
      few := by omega
      data := hdata
      key := hkey }⟩

theorem toNat_times {n : ℕ} {r : BigInt} (hfits : n * r.toNat < 2 ^ 256) :
    (BitVec.ofNat 256 n * r).toNat = n * r.toNat := by
  rw [BitVec.toNat_mul, BitVec.toNat_ofNat, Nat.mod_mul_mod, Nat.mod_eq_of_lt hfits]

variable {b} in
/-- The totals are the same only if nothing was late. -/
theorem Validates.late_eq_zero (hfits : b.Fits) {validated : ValidatedReward} {base : BigInt} {shares : BigInt → BigInt}
    {taken : ℕ} (h : b.Validates validated base shares taken)
    (hsame : validated.rewardUptilNow = b.result.rewardValidatedUpToNow) : b.late = 0 := by
  by_contra hlate
  let reward := context.S.getRewardForPoFProcessing
  let ratio := context.settings.getEpochRewardRatio .ALeader
  have hlost : 0 < b.late * reward.toNat := Nat.mul_pos (Nat.pos_of_ne_zero hlate) hfits.rewarded
  have hsum : (taken + b.late) * reward.toNat = taken * reward.toNat + b.late * reward.toNat := Nat.add_mul ..
  have hroom : (b.txs.validatedFees.toNat + (taken + b.late) * reward.toNat) * (100 + ratio) < 2 ^ 256 :=
    lt_of_le_of_lt (Nat.mul_le_mul_right _ (Nat.add_le_add_left (Nat.mul_le_mul_right _ h.few) _)) hfits.room
  rw [hsum, Nat.mul_add] at hroom
  have htaken : (BitVec.ofNat 256 taken * reward).toNat = taken * reward.toNat := toNat_times (by omega)
  have hlateReward : (BitVec.ofNat 256 b.late * reward).toNat = b.late * reward.toNat := toNat_times (by omega)
  have hbase : base.toNat = b.txs.validatedFees.toNat + taken * reward.toNat := by
    rw [h.base, BitVec.toNat_add_of_lt (by rw [htaken]; omega), htaken]
  have hwith : (base + BitVec.ofNat 256 b.late * reward).toNat = base.toNat + b.late * reward.toNat := by
    rw [BitVec.toNat_add_of_lt (by omega), hlateReward]
  have htotal : base + shares base = base + BitVec.ofNat 256 b.late * reward +
      shares (base + BitVec.ofNat 256 b.late * reward) := by
    rw [← h.total, hsame, h.formed]
  cases hkey : b.live.mBlockHeader.isKeyBlock with
  | true =>
      rw [h.key hkey (base + BitVec.ofNat 256 b.late * reward) base] at htotal
      have hequal := congrArg BitVec.toNat (add_right_cancel htotal)
      omega
  | false =>
      have hratio : ratio < 2 ^ 256 :=
        lt_of_le_of_lt (Nat.le_mul_of_pos_left ratio (by omega)) (lt_of_le_of_lt (Nat.le_add_left ..) hroom)
      have hmore : base.toNat * ratio ≤ (base.toNat + b.late * reward.toNat) * ratio :=
        Nat.mul_le_mul_right _ (Nat.le_add_right _ _)
      rw [← Nat.add_assoc, ← hbase] at hroom
      have hless : (context.settings.partialReward .ALeader base).toNat = base.toNat * ratio / 100 :=
        Epoch.partialReward_of_lt rfl hratio (by omega)
      have hall : (context.settings.partialReward .ALeader (base + BitVec.ofNat 256 b.late * reward)).toNat =
          (base.toNat + b.late * reward.toNat) * ratio / 100 := by
        rw [← hwith]
        exact Epoch.partialReward_of_lt rfl hratio (by rw [hwith]; omega)
      have hequal := congrArg BitVec.toNat htotal
      rw [h.data hkey, h.data hkey, BitVec.toNat_add_of_lt (by omega), BitVec.toNat_add_of_lt (by omega), hless, hall,
        hwith] at hequal
      omega

/-- The operator's reward, as the header and the verifiable declare it. -/
theorem header : b.block.mMinersID = b.proposal.mMinersID ∧
    b.block.getTotalBlockReward = b.result.rewardValidatedUpToNow ∧
    b.block.getPaidToMiner = b.result.rewardValidatedUpToNow -
      formationTax (context.S.getMiningTax b.block.keyHeight) b.result.rewardValidatedUpToNow := by
  have hforms := formRewards_some b.formed
  obtain ⟨answer, vs', hloop⟩ := hforms.loop
  obtain ⟨us, hblock, -⟩ := (candidateRun_of_loop b.plain hloop).repeated b.plain rfl
    (fun _ => rfl : ∀ n, (fun _ : ℕ => true) n = true)
  obtain ⟨leader, receipts, -, hfinal⟩ := finishRewards_some b.finished
  obtain ⟨htotal, hpaid⟩ := getTotalBlockReward_setRewards (S := context.S.toVerifiableServices)
    b.result.flow.block.toRewardedBlock b.result.rewardValidatedUpToNow
  rw [hfinal, hforms.proposal]
  refine ⟨?_, htotal, hpaid⟩
  show b.result.flow.block.mMinersID = b.proposal.mMinersID
  rw [hblock]
  rfl

/-- The candidates' part of a block that is formed: no operator's reward is among its verifiables yet. -/
theorem proposal_plain : b.result.proposal.mMinersID = b.proposal.mMinersID ∧
    ∀ u ∈ b.result.proposal.verifiables, u.mVerifiableType ≠ .minerReward := by
  have hforms := formRewards_some b.formed
  obtain ⟨answer, vs', hloop⟩ := hforms.loop
  obtain ⟨us, hblock, -, hadded, -⟩ := (candidateRun_of_loop b.plain hloop).repeated b.plain rfl
    (fun _ => rfl : ∀ n, (fun _ : ℕ => true) n = true)
  rw [hforms.proposal, hblock]
  refine ⟨rfl, fun u hu => ?_⟩
  obtain ⟨v, hv, rfl⟩ := (hadded u (by
    rw [← List.nil_append us, ← b.fresh]
    exact hu)).1
  exact b.plain v hv

/-- The verifiable of the operator's reward, as it is processed. -/
def leader : PoolVerifiable := { toCVerifiable := b.result.leaderReward }

/-- The flow in which it is. -/
def leaderFlow : VerifiableFlow :=
  { b.result.flow with
    block := b.result.proposal
    toRewardState :=
      { b.result.flow.toRewardState with
        rewardValidatedUpToNow := b.result.rewardValidatedUpToNow
        rewardIssuedToMinerAfterTAX := b.result.proposal.mPaidToLeader }
    addToBlock := true }

/-- The header was set for this reward, which is therefore accepted. -/
theorem leader_accepted : ∃ armed, verifyMinerReward context.S.toVerifiableServices b.result.proposal.toRewardedBlock
    b.leader.copied b.result.rewardValidatedUpToNow = some armed := by
  have hforms := formRewards_some b.formed
  obtain ⟨hminers, hplain⟩ := b.proposal_plain
  obtain ⟨htotal, hpaid⟩ := getTotalBlockReward_setRewards (S := context.S.toVerifiableServices)
    b.result.flow.block.toRewardedBlock b.result.rewardValidatedUpToNow
  have hdomains : b.leader.copied.getAffectedStateDomains =
      [⟨b.proposal.mMinersID, b.result.rewardValidatedUpToNow.toNat⟩] := by
    rw [leader, hforms.leaderReward]
    rfl
  have hnone : b.result.proposal.verifiables.countP (·.mVerifiableType = .minerReward) = 0 :=
    List.countP_eq_zero.mpr fun u hu => by simpa using hplain u hu
  have hagrees : rewardAgrees context.S.toVerifiableServices b.result.proposal.toRewardedBlock
      ⟨b.proposal.mMinersID, b.result.rewardValidatedUpToNow.toNat⟩ b.result.rewardValidatedUpToNow = true := by
    rw [rewardAgrees, hforms.proposal]
    refine decide_eq_true ⟨hpaid.trans ?_, htotal, ?_⟩
    · rw [taxOn_eq_formationTax]
      rfl
    · exact congrArg (fun reward : BigInt => (reward.toNat : ℤ)) htotal.symm
  unfold verifyMinerReward
  rw [hdomains]
  dsimp only
  rw [hnone, if_neg (by decide), hagrees, if_pos rfl]
  split_ifs <;> exact ⟨_, rfl⟩

theorem leader_processed_iff {armed : PoolVerifiable}
    (harmed : verifyMinerReward context.S.toVerifiableServices b.result.proposal.toRewardedBlock b.leader.copied
      b.result.rewardValidatedUpToNow = some armed) (receiptID : Bytes) :
    (∃ st' receipt, processVerifiable context.S context.chain context.keyHeight b.result.proposal.toRewardedBlock armed
        receiptID b.leaderFlow.toRewardState = .ok (receipt, st') ∧ receipt.mResult = .valid) ↔
      (b.result.proposal.isCheckpointed = true ∨ context.S.ENABLE_FLOW_DETAILED_LOGS_VERIFIER = true) ∧
        ((b.result.flow.toRewardState.ledger.findByID context.S.getTreasuryDomainID).isSome = true ∨
          context.keyHeight = 0) ∧
        Creditable context.S b.result.proposal.toRewardedBlock b.result.flow.toRewardState.ledger b.proposal.mMinersID
          (b.result.rewardValidatedUpToNow -
            formationTax (context.S.getMiningTax b.result.proposal.keyHeight) b.result.rewardValidatedUpToNow) := by
  have hforms := formRewards_some b.formed
  have htype : b.leader.mVerifiableType = .minerReward := by
    rw [leader, hforms.leaderReward]
    rfl
  obtain ⟨change, hchange, hagrees, hdomains, hcopied, harmedType, hisArmed⟩ := verifyMinerReward_some harmed
  have haddress : change.address = b.proposal.mMinersID := by
    rw [leader, hforms.leaderReward] at hchange
    exact congrArg BalanceChange.address (List.singleton_inj.mp hchange).symm
  have haccepts : verifyActuateAndArm context.S.toVerifiableServices context.chain
      b.leaderFlow.toRewardState.mInFlowLinks b.result.proposal.toRewardedBlock b.leader.copied
      b.leaderFlow.toRewardState.rewardValidatedUpToNow = .ok (some armed) := by
    rw [verifyActuateAndArm, show b.leader.copied.mVerifiableType = .minerReward from htype]
    exact congrArg Except.ok harmed
  have hprocess (st' : RewardState) : (∃ receipt, processVerifiable context.S context.chain context.keyHeight
      b.result.proposal.toRewardedBlock armed receiptID b.leaderFlow.toRewardState = .ok (receipt, st') ∧
        receipt.mResult = .valid) ↔ _ := processVerifiable_valid_iff htype hcopied harmedType haccepts
  have hproceeds : (∃ locals' st', payReward context.S b.result.proposal.toRewardedBlock
      (verifiableReceiptID context.S armed.toCVerifiable receiptID) {}
      ⟨b.proposal.mMinersID, b.result.rewardValidatedUpToNow.toNat⟩ b.leaderFlow.toRewardState =
        .ok (.proceed locals', st')) ↔ _ :=
    payReward_proceeds_iff (taxOn_eq_formationTax (context.S.getMiningTax b.result.proposal.keyHeight) _)
      (rewardAfterTax_eq _ _) fun hplain => (header_of_rewardAgrees (hagrees hplain)).2
  rw [haddress] at hdomains
  have hunarmed : b.leader.mIsArmed = false := rfl
  simp only [hprocess, hdomains, payRewards_valid_iff]
  constructor
  · rintro ⟨st', htreasury, harmed', locals', hpay⟩
    refine ⟨(hisArmed.mp harmed').resolve_left ?_, htreasury, hproceeds.mp ⟨locals', st', hpay⟩⟩
    rw [hunarmed]
    exact Bool.false_ne_true
  · rintro ⟨harmed', htreasury, hcreditable⟩
    obtain ⟨locals', st', hpay⟩ := hproceeds.mpr hcreditable
    exact ⟨st', htreasury, hisArmed.mpr (.inr harmed'), locals', hpay⟩

theorem leader_turn {armed v' : PoolVerifiable} {flow' : VerifiableFlow}
    (harmed : verifyMinerReward context.S.toVerifiableServices b.result.proposal.toRewardedBlock b.leader.copied
      b.result.rewardValidatedUpToNow = some armed)
    (hturn : verifiableTurn context.S (formationRun true) context.chain context.keyHeight b.leader b.leaderFlow =
      .ok (.proceed, v', flow')) :
    b.result.leaderReward ∈ flow'.block.verifiables ↔
      ∃ st' receipt, processVerifiable context.S context.chain context.keyHeight b.result.proposal.toRewardedBlock armed
        (context.S.getReceiptIDForVerifiable b.leader.toCVerifiable) b.leaderFlow.toRewardState =
          .ok (receipt, st') ∧ receipt.mResult = .valid := by
  have htype : b.result.leaderReward.mVerifiableType = .minerReward := by
    rw [(formRewards_some b.formed).leaderReward]
    rfl
  have hnew : b.result.leaderReward ∉ b.result.proposal.verifiables := fun hmem => b.proposal_plain.2 _ hmem htype
  have haccepts : verifyActuateAndArm context.S.toVerifiableServices context.chain
      b.leaderFlow.toRewardState.mInFlowLinks b.leaderFlow.block.toRewardedBlock b.leader.copied
      b.leaderFlow.toRewardState.rewardValidatedUpToNow = .ok (some armed) := by
    rw [verifyActuateAndArm, show b.leader.copied.mVerifiableType = .minerReward from htype]
    exact congrArg Except.ok harmed
  have hID : receiptIDForVerifiable context.S (formationRun true) {} b.leader.toCVerifiable =
      context.S.getReceiptIDForVerifiable b.leader.toCVerifiable := rfl
  have hlisted : blockReceiptForVerifiable context.S (formationRun true) b.leaderFlow.block b.leader.toCVerifiable =
      some {} := rfl
  unfold verifiableTurn at hturn
  rw [if_neg (show ¬b.leader.HotProperties.markedAsProcessed = true from Bool.false_ne_true)] at hturn
  split_ifs at hturn
  · cases hturn
  · unfold judgeVerifiable at hturn
    rw [haccepts] at hturn
    dsimp only at hturn
    rw [hlisted] at hturn
    dsimp only at hturn
    rw [hID] at hturn
    cases hprocess : processVerifiable context.S context.chain context.keyHeight b.leaderFlow.block.toRewardedBlock
        armed (context.S.getReceiptIDForVerifiable b.leader.toCVerifiable) b.leaderFlow.toRewardState with
    | error e =>
        rw [hprocess] at hturn
        cases hturn
    | ok outcome =>
        obtain ⟨receipt, st'⟩ := outcome
        rw [hprocess] at hturn
        by_cases hvalid : receipt.mResult = .valid
        · have hafter : afterProcessing (formationRun true) b.leader {} receipt
              { b.leaderFlow with toRewardState := st' } = .ok (.proceed, b.leader,
                { b.leaderFlow with toRewardState := st', receipts := b.leaderFlow.receipts ++ [receipt] }) := by
            simp [afterProcessing, formationRun, hvalid]
            rfl
          dsimp only at hturn
          rw [hafter] at hturn
          cases hturn
          exact iff_of_true List.mem_concat_self ⟨st', receipt, hprocess, hvalid⟩
        · refine iff_of_false ?_ ?_
          · have hafter : afterProcessing (formationRun true) b.leader {} receipt
                { b.leaderFlow with toRewardState := st' } =
                  ({ b.leaderFlow with toRewardState := st' } : VerifiableFlow).stepBack.map fun flow =>
                    (.proceed, b.leader, { flow with addToBlock := false }) := by
              simp [afterProcessing, formationRun, hvalid]
              rfl
            dsimp only at hturn
            rw [hafter] at hturn
            cases hback : ({ b.leaderFlow with toRewardState := st' } : VerifiableFlow).stepBack with
            | error e =>
                rw [hback] at hturn
                cases hturn
            | ok flow =>
                obtain ⟨older, st, rfl, -⟩ := stepBack_some hback
                rw [hback] at hturn
                cases hturn
                exact hnew
          · rintro ⟨st'', receipt', hprocess', hvalid'⟩
            cases hprocess.symm.trans hprocess'
            exact hvalid hvalid'

/-- The operator's reward is taken into the block exactly if it can be paid. -/
theorem leads_iff : b.result.leaderReward ∈ b.block.verifiables ↔ b.LeaderPaid := by
  obtain ⟨armed, harmed⟩ := b.leader_accepted
  have hpaid := b.leader_processed_iff harmed (context.S.getReceiptIDForVerifiable b.leader.toCVerifiable)
  have hfinished := b.finished
  unfold finishRewards processVerifiables verifiableLoop at hfinished
  rw [List.length_nil] at hfinished
  by_cases hrunning : b.runningForLeader 0 = true
  · rw [if_pos (show (context.whileForming b.running b.runningForLeader).runningForLeader 0 = true from hrunning)]
      at hfinished
    split at hfinished
    case h_1 => cases hfinished
    case h_2 answer vs' flow' hprocess =>
      split at hprocess
      case h_1 => cases hprocess
      case h_2 =>
        cases hprocess
        rw [if_pos (.inl rfl)] at hfinished
        cases hfinished
      case h_3 hturn =>
        cases hprocess
        by_cases hempty : flow'.block.verifiables = []
        · rw [if_pos (.inr hempty)] at hfinished
          cases hfinished
        · rw [if_neg (by simpa using hempty)] at hfinished
          rw [← Option.some.inj (Except.ok.inj hfinished)]
          refine ((b.leader_turn harmed hturn).trans hpaid).trans ⟨fun h => ⟨hrunning, h.1, h.2.1, h.2.2⟩, fun h => ?_⟩
          exact ⟨h.armed, h.treasury, h.creditable⟩
  · rw [if_neg (show ¬(context.whileForming b.running b.runningForLeader).runningForLeader 0 = true from hrunning)]
      at hfinished
    refine iff_of_false ?_ fun hpaid => hrunning hpaid.running
    dsimp only at hfinished
    by_cases hempty : b.result.proposal.verifiables = []
    · rw [if_pos (.inr hempty)] at hfinished
      cases hfinished
    · rw [if_neg (by simpa using hempty)] at hfinished
      rw [← Option.some.inj (Except.ok.inj hfinished)]
      intro hmem
      refine b.proposal_plain.2 _ hmem ?_
      rw [(formRewards_some b.formed).leaderReward]
      rfl

theorem agrees_of_nothingLost (hrunning : ∀ n, context.running n = true) (hnothing : b.NothingLost) : b.Agrees := by
  obtain ⟨hpaid, hlate⟩ := hnothing
  have hled := b.leads_iff.mpr hpaid
  obtain ⟨validated, base, shares, taken, h⟩ := b.validates hrunning hled
  have hsame : validated.rewardUptilNow = b.result.rewardValidatedUpToNow := by
    rw [h.total, h.formed, hlate, BitVec.zero_mul, BitVec.add_zero]
  obtain ⟨hminers, htotal, hdeclared⟩ := b.header
  refine ⟨validated, h.computed, h.success, ?_, htotal.trans hsame.symm, ?_⟩
  · rw [hminers, hsame, ← (formRewards_some b.formed).leaderReward]
    exact hled
  · rw [hdeclared, hsame]

theorem nothingLost_of_agrees (hrunning : ∀ n, context.running n = true) (hfits : b.Fits) (hagrees : b.Agrees) :
    b.NothingLost := by
  obtain ⟨validated, hconfirmed⟩ := hagrees
  obtain ⟨hminers, htotal, -⟩ := b.header
  have hsame : validated.rewardUptilNow = b.result.rewardValidatedUpToNow := hconfirmed.total.symm.trans htotal
  have hled : b.result.leaderReward ∈ b.block.verifiables := by
    rw [(formRewards_some b.formed).leaderReward, ← hminers, ← hsame]
    exact hconfirmed.declared
  obtain ⟨validated', base, shares, taken, h⟩ := b.validates hrunning hled
  obtain rfl : validated = validated' :=
    Except.ok.inj (Option.some.inj (hconfirmed.computed.symm.trans h.computed))
  exact ⟨b.leads_iff.mp hled, h.late_eq_zero hfits hsame⟩

end RewardFormation

/-! ### The header against what was computed -/

section Header

variable {context : RewardContext Trie} {fuel : ℕ} {live : LiveBlock Trie} {block : ReceiptedBlock}
  {txs : ProcessedTransactions}

/-- An operator's reward that the verification lets pass is what was computed. -/
theorem header_of_verified {mode : ProcessingMode} {flow flow' : VerifiableFlow} {v v' : PoolVerifiable}
    (hverify : mode.verifyAgainstBlock = true) (hplain : flow.block.isCheckpointed = false)
    (hunmarked : v.HotProperties.markedAsProcessed = false) (htype : v.mVerifiableType = .minerReward)
    (hturn : verifiableTurn S mode chain keyHeight v flow = .ok (.proceed, v', flow')) :
    flow.block.getTotalBlockReward = flow.toRewardState.rewardValidatedUpToNow := by
  unfold verifiableTurn at hturn
  rw [if_neg (by rw [hunmarked]; exact Bool.false_ne_true)] at hturn
  split_ifs at hturn
  · cases hturn
  · have hcopied : v.copied.mVerifiableType = .minerReward := htype
    unfold judgeVerifiable at hturn
    rw [verifyActuateAndArm, hcopied] at hturn
    dsimp only at hturn
    cases hverified : verifyMinerReward S.toVerifiableServices flow.block.toRewardedBlock v.copied
        flow.toRewardState.rewardValidatedUpToNow with
    | none =>
        rw [hverified] at hturn
        dsimp only at hturn
        rw [if_pos hverify] at hturn
        cases hturn
    | some armed =>
        obtain ⟨change, -, hagrees, -⟩ := verifyMinerReward_some hverified
        exact (header_of_rewardAgrees (hagrees hplain)).1

/-- Where the dry pass went well, the operator's verifiable is the last one, and the block is as it was. -/
theorem leads_of_validateReward {validated : ValidatedReward}
    (hvalidated : validateReward context fuel live block txs = some (.ok validated))
    (hsuccess : validated.success = true) :
    validated.flow.block = block ∧
      ∃ leader, block.verifiables.getLast? = some leader ∧ leader.mVerifiableType = .minerReward := by
  unfold validateReward at hvalidated
  dsimp only at hvalidated
  unfold onResult at hvalidated
  split at hvalidated
  case h_1 => cases hvalidated
  case h_2 hloop =>
    dsimp only at hvalidated
    split at hvalidated
    case h_1 => cases hvalidated
    case h_2 => cases hvalidated
    case h_3 =>
      cases hvalidated
      refine ⟨verifiableLoop_block rfl hloop, ?_⟩
      simp only [Bool.and_eq_true] at hsuccess
      obtain ⟨⟨⟨-, hleads⟩, -⟩, -⟩ := hsuccess
      cases hlast : block.verifiables.getLast? with
      | none =>
          rw [hlast] at hleads
          cases hleads
      | some leader =>
          rw [hlast] at hleads
          exact ⟨leader, rfl, of_decide_eq_true hleads⟩

/-- A block without a checkpoint passes only with the total that was computed in its header. -/
theorem total_of_dryPass {total : BigInt} (hplain : block.isCheckpointed = false)
    (hrunning : context.runningForLeader 0 = true)
    (hpass : dryPass context fuel live block txs = some (.ok (true, total))) : block.getTotalBlockReward = total := by
  have hran := hpass
  unfold dryPass at hran
  split_ifs at hran with hanswer
  · cases hran
  · cases hvalidate : validateReward context fuel live block txs with
    | none =>
        rw [hvalidate] at hran
        cases hran
    | some result =>
        rw [hvalidate] at hran
        cases result with
        | error e => cases hran
        | ok validated =>
            obtain ⟨hsuccess, htotal⟩ := EpochBlock.validated_of_dryPass hvalidate hpass
            obtain ⟨hblock, leader, hlast, htype⟩ := leads_of_validateReward hvalidate hsuccess
            have hleader : (inFlowVerifiables block).getLast?.toList = [leader.received] := by
              unfold inFlowVerifiables
              rw [List.getLast?_map, hlast]
              rfl
            dsimp only at hran
            rw [hleader] at hran
            unfold processVerifiables verifiableLoop at hran
            rw [List.length_nil, if_pos hrunning] at hran
            unfold onResult at hran
            split at hran
            case h_1 => cases hran
            case h_2 outcome hloop =>
              split at hloop
              case h_1 => cases hloop
              case h_2 =>
                cases hloop
                dsimp only at hran
                rw [if_neg (List.cons_ne_nil _ _), Bool.and_false] at hran
                cases hran
              case h_3 hturn =>
                rw [← htotal]
                have hheader := header_of_verified rfl (by rw [hblock]; exact hplain) rfl htype hturn
                rw [hblock] at hheader
                exact hheader

end Header

/-- **Formation and verification compute the same reward as long as the operator's reward can be paid and no proof of
fraud is processed after a candidate was refused; where the numbers have room, only then. A block without a checkpoint
passes only with the total that was computed.** -/
theorem rewards_agree (context : RewardContext Trie) (hrunning : ∀ n, context.running n = true)
    (hleader : context.runningForLeader 0 = true) :
    (∀ b : RewardFormation context, b.NothingLost → b.Agrees) ∧
      (∀ b : RewardFormation context, b.Fits → (b.Agrees ↔ b.NothingLost)) ∧
      ∀ fuel live block txs total, block.isCheckpointed = false →
        dryPass context fuel live block txs = some (.ok (true, total)) → block.getTotalBlockReward = total :=
  ⟨fun b => b.agrees_of_nothingLost hrunning,
    fun b hfits => ⟨b.nothingLost_of_agrees hrunning hfits, b.agrees_of_nothingLost hrunning⟩,
    fun _ _ _ _ _ hplain hpass => total_of_dryPass hplain hleader hpass⟩

/-! ### A proof of fraud after one whose key block has left the chain -/

section Sample

/-- A node at the beginning, with a reward of 80 for a proof of fraud. -/
def fraudContext : RewardContext Bytes := { sampleContext with keyHeight := 0 }

def fraudTransactions : ProcessedTransactions where
  ledger := sampleChain.liveDomains

def fraudProposal : ReceiptedBlock where
  height := 1
  mMinersID := sampleAddress 1

/-- The header of a key block at height zero that paid 256 to its operator, and is not on the chain. -/
def staleHeader : Bytes :=
  cons eBERObjectType.keyBlockHeader PRIVATE <|
    encodeSmall 4 ++
    cons SEQUENCE UNIVERSAL
      ((headerCodec CBlock.emptyNode).row (decodedFields 4 true) fun
        | .mPaidToLeader => [1, 0]
        | f => CBlock.genesisContents f)

def staleProof : PoolVerifiable :=
  { forgedProof with mProof := (setPoFProof staleHeader staleHeader staleHeader).getD [] }

/-- What becomes of candidates for a data block without transactions. -/
def formFrauds (candidates : List PoolVerifiable) : Option (FormedRewards × ReceiptedBlock) :=
  match formRewards fraudContext 1 (sampleLive false 1 0 none) false fraudProposal fraudTransactions candidates with
  | some (.ok (some result)) =>
      match finishRewards fraudContext result with
      | .ok (some block) => some (result, block)
      | _ => none
  | _ => none

theorem formFrauds_some {candidates : List PoolVerifiable} {result : FormedRewards} {block : ReceiptedBlock}
    (hformed : formFrauds candidates = some (result, block)) :
    formRewards fraudContext 1 (sampleLive false 1 0 none) false fraudProposal fraudTransactions candidates =
        some (.ok (some result)) ∧ finishRewards fraudContext result = .ok (some block) := by
  unfold formFrauds at hformed
  split at hformed
  case h_1 hforms =>
    split at hformed
    case h_1 hfinished =>
      cases hformed
      exact ⟨hforms, hfinished⟩
    case h_2 => cases hformed
  case h_2 => cases hformed

theorem formFrauds_exists {candidates : List PoolVerifiable}
    (hplain : ∀ v ∈ candidates, v.mVerifiableType ≠ .minerReward)
    (hdistinct : ∀ v ∈ candidates, ∀ w ∈ candidates,
      sampleRewards.getHash v.toCVerifiable = sampleRewards.getHash w.toCVerifiable → v.toCVerifiable = w.toCVerifiable)
    (hled : ((formFrauds candidates).any fun (result, block) => result.leaderReward ∈ block.verifiables) = true) :
    ∃ b : RewardFormation fraudContext, b.candidates = candidates ∧ b.txs = fraudTransactions ∧
      b.result.leaderReward ∈ b.block.verifiables ∧
      b.late = lateFrauds loggingRewards (formationRun false) sampleChain 0 (fun _ => true) candidates
        (formationFlow fraudProposal fraudTransactions) := by
  cases hformed : formFrauds candidates with
  | none =>
      rw [hformed] at hled
      cases hled
  | some outcome =>
      obtain ⟨result, block⟩ := outcome
      rw [hformed] at hled
      obtain ⟨hforms, hfinished⟩ := formFrauds_some hformed
      exact ⟨
        { running := fun _ => true
          runningForLeader := fun _ => true
          fuel := 1
          live := sampleLive false 1 0 none
          phantomMode := false
          proposal := fraudProposal
          txs := fraudTransactions
          candidates
          result
          block
          kind := rfl
          fresh := rfl
          plain := hplain
          distinct := hdistinct
          formed := hforms
          finished := hfinished }, rfl, rfl, of_decide_eq_true hled, rfl⟩

theorem forgedProof_agrees : ∃ b : RewardFormation fraudContext, b.candidates = [forgedProof] ∧ b.Agrees := by
  have hplain : ∀ v ∈ [forgedProof], v.mVerifiableType ≠ .minerReward :=
    List.forall_mem_singleton.mpr (by decide : eVerifiableType.proofOfFraud ≠ .minerReward)
  obtain ⟨b, hcandidates, -, hled, hlate⟩ := formFrauds_exists hplain (by simp) (by decide +kernel)
  have hnone : b.late = 0 := by
    rw [hlate]
    decide +kernel
  exact ⟨b, hcandidates, (rewards_agree fraudContext (fun _ => rfl) rfl).1 b ⟨b.leads_iff.mp hled, hnone⟩⟩

/-- The proof is rewarded in the header, and missing in the block. -/
theorem late_proof_disagrees : ∃ b : RewardFormation fraudContext,
    b.candidates = [staleProof, forgedProof] ∧ b.result.leaderReward ∈ b.block.verifiables ∧ ¬b.Agrees := by
  have hplain : ∀ v ∈ [staleProof, forgedProof], v.mVerifiableType ≠ .minerReward :=
    List.forall_mem_cons.mpr ⟨(by decide : eVerifiableType.proofOfFraud ≠ .minerReward),
      List.forall_mem_singleton.mpr (by decide : eVerifiableType.proofOfFraud ≠ .minerReward)⟩
  have hhash : sampleRewards.getHash staleProof.toCVerifiable ≠ sampleRewards.getHash forgedProof.toCVerifiable := by
    decide +kernel
  obtain ⟨b, hcandidates, htxs, hled, hlate⟩ := formFrauds_exists hplain
    (by simp [hhash, hhash.symm]) (by decide +kernel)
  have hone : b.late = 1 := by
    rw [hlate]
    decide +kernel
  have hfits : b.Fits := by
    refine ⟨by decide, ?_⟩
    rw [hcandidates, htxs]
    decide
  refine ⟨b, hcandidates, hled, fun hagrees => ?_⟩
  have hnone := (b.nothingLost_of_agrees (fun _ => rfl) hfits hagrees).2
  rw [hone] at hnone
  cases hnone

end Sample

end Gridnet
