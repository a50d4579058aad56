import Gridnet.RewardAgreement

/-! The links that mark frauds as processed, along a run over verifiables: every penalty leaves one, for a fraud
that had none in the flow or in storage. -/

namespace Gridnet

variable {Trie : Type}

/-! ### Penalties -/

section Penalties

variable (S : RewardServices Trie)

/-- The key block that a proof of fraud is against, by the hash of its header. -/
def fraudOf (mProof : Bytes) : Option Bytes :=
  (getPoFProof S.toVerifiableServices mProof).bind fun proof =>
    (proof.kbHeader.getHash S.headers false).map Prod.fst

/-- The key block whose operator a verifiable with this receipt penalized. -/
def penalizedBy (v : CVerifiable) (receipt : CReceipt) : Option Bytes :=
  if v.mVerifiableType = .proofOfFraud ∧ receipt.mResult = .valid then fraudOf S v.mProof else none

variable (mode : ProcessingMode) (chain : ChainView) (keyHeight : UInt64)

/-- The key block whose operator is penalized by a verifiable that is let through, also where a step back takes the
penalty out of the state again. -/
def judgedPenalty (v : PoolVerifiable) (flow : VerifiableFlow) : Option Bytes :=
  match verifyActuateAndArm S.toVerifiableServices chain flow.toRewardState.mInFlowLinks
      flow.block.toRewardedBlock v.copied flow.toRewardState.rewardValidatedUpToNow with
  | .error _ => none
  | .ok none => none
  | .ok (some armed) =>
      match blockReceiptForVerifiable S mode flow.block v.toCVerifiable with
      | none => none
      | some blockReceipt =>
          match processVerifiable S chain keyHeight flow.block.toRewardedBlock armed
              (receiptIDForVerifiable S mode blockReceipt v.toCVerifiable) flow.toRewardState with
          | .error _ => none
          | .ok (receipt, _) => penalizedBy S v.toCVerifiable receipt

/-- The key block whose operator is penalized in a turn. -/
def turnPenalty (v : PoolVerifiable) (flow : VerifiableFlow) : Option Bytes :=
  if v.HotProperties.markedAsProcessed = true ∨ legalVerifiable flow.block v.mVerifiableType = false then none
  else judgedPenalty S mode chain keyHeight v flow

/-- The key blocks whose operators a run penalizes, one entry for each penalty. -/
def loopPenalties (running : ℕ → Bool) : List PoolVerifiable → VerifiableFlow → List Bytes
  | [], _ => []
  | v :: vs, flow =>
      if running vs.length then
        (turnPenalty S mode chain keyHeight v flow).toList ++
          match verifiableTurn S mode chain keyHeight v flow with
          | .ok (.proceed, _, flow) => loopPenalties running vs flow
          | _ => []
      else []

/-- The penalties of a call of `processVerifiables`. -/
def penalties (running : ℕ → Bool) (incommingVerifiables : List PoolVerifiable) (flow : VerifiableFlow) : List Bytes :=
  loopPenalties S mode chain keyHeight running incommingVerifiables { flow with addToBlock := mode.addToBlock }

end Penalties

/-! ### What processing does to the links -/

section Links

variable {S : RewardServices Trie} {mode : ProcessingMode} {chain : ChainView} {keyHeight : UInt64}
  {receiptID : Bytes} {st st' : RewardState} {loadLink : Bytes → eLinkType → Option Bytes}
  {links : List CLinkContainer} {penalized : List Bytes}

variable (S loadLink links penalized) in
/-- The links of a flow are those of the frauds it penalized, each one once and none of them stored. -/
structure FraudLinks : Prop where
  keys : links.map CLinkContainer.mKey = penalized.map S.getProofOfFraudID
  typed : ∀ link ∈ links, link.mType = .PoFIDtoReceiptID
  valued : ∀ link ∈ links, link.mValue ≠ []
  distinct : (penalized.map S.getProofOfFraudID).Nodup
  unsaved : ∀ hash ∈ penalized, loadLink (S.getProofOfFraudID hash) .PoFIDtoReceiptID = none

theorem FraudLinks.nil : FraudLinks S loadLink [] [] := ⟨rfl, nofun, nofun, .nil, nofun⟩

/-- One more penalty, for a fraud that has no link. -/
theorem FraudLinks.concat {hash receiptID : Bytes} (hlinks : FraudLinks S loadLink links penalized)
    (hnew : ∀ link ∈ links, ¬(link.mKey = S.getProofOfFraudID hash ∧ link.mType = .PoFIDtoReceiptID))
    (hunsaved : loadLink (S.getProofOfFraudID hash) .PoFIDtoReceiptID = none) (hvalue : receiptID ≠ []) :
    FraudLinks S loadLink (links ++ [⟨S.getProofOfFraudID hash, receiptID, .PoFIDtoReceiptID⟩])
      (penalized ++ [hash]) where
  keys := by simp [hlinks.keys]
  typed := by simpa [or_imp, forall_and] using hlinks.typed
  valued := by simpa [or_imp, forall_and, hvalue] using hlinks.valued
  distinct := by
    rw [List.map_append, List.map_singleton, ← hlinks.keys, ← List.concat_eq_append]
    apply List.Nodup.concat
    · intro hmem
      obtain ⟨link, hlink, hkey⟩ := List.mem_map.mp hmem
      exact hnew link hlink ⟨hkey, hlinks.typed link hlink⟩
    · rw [hlinks.keys]
      exact hlinks.distinct
  unsaved := by simpa [or_imp, forall_and, hunsaved] using hlinks.unsaved

theorem newLink_ok {key value : Bytes} {type : eLinkType} {lc : CLinkContainer}
    (hlink : newLink key value type = .ok lc) : lc = ⟨key, value, type⟩ := by
  unfold newLink at hlink
  split_ifs at hlink
  exact (Except.ok.inj hlink).symm

/-- A proof of fraud that is processed leaves a link for its fraud. -/
theorem processProofOfFraud_links {ver : CVerifiable} {result : eTransactionValidationResult}
    (hprocess : processProofOfFraud S ver receiptID st = .ok (result, st')) :
    result = .invalid ∧ st' = st ∨
      result = .valid ∧ ∃ hash, fraudOf S ver.mProof = some hash ∧
        st'.mInFlowLinks = st.mInFlowLinks ++ [⟨S.getProofOfFraudID hash, receiptID, .PoFIDtoReceiptID⟩] := by
  rcases processProofOfFraud_cases hprocess with hinvalid | ⟨hvalid, proof, domain, hproof, hsettled⟩
  · exact .inl hinvalid
  · refine .inr ⟨hvalid, ?_⟩
    unfold processProofOfFraud at hprocess
    rw [hproof] at hprocess
    dsimp only at hprocess
    rw [hsettled.operator] at hprocess
    dsimp only at hprocess
    rw [if_neg hsettled.funded] at hprocess
    split_ifs at hprocess
    · exact absurd ((Prod.mk.inj (Except.ok.inj hprocess)).1.trans hvalid) nofun
    · split at hprocess
      case h_1 => cases hprocess
      case h_2 =>
        split at hprocess
        case h_1 => cases hprocess
        case h_2 hash kbh hhash =>
          split at hprocess
          case h_1 => cases hprocess
          case h_2 lc hlink =>
            cases hprocess
            refine ⟨hash, ?_, ?_⟩
            · rw [fraudOf, hproof, Option.bind_some, hhash, Option.map_some]
            · rw [newLink_ok hlink]

/-- The fraud of a proof that is accepted can be penalized. -/
theorem fraudOf_of_penalizable {ver : CVerifiable} {proof : PoFProof Trie} {hash : Bytes}
    {links : List CLinkContainer} (hproof : getPoFProof S.toVerifiableServices ver.mProof = some proof)
    (hpenalizable : Penalizable S.toVerifiableServices chain links proof.kbHeader hash) :
    fraudOf S ver.mProof = some hash := by
  rw [fraudOf, hproof, Option.bind_some, hpenalizable.hashed]

theorem penalizedBy_of_invalid {ver : CVerifiable} {receipt : CReceipt} (hinvalid : receipt.mResult = .invalid) :
    penalizedBy S ver receipt = none := by
  unfold penalizedBy
  rw [hinvalid]
  exact if_neg fun h => nomatch h.2

variable (hS : S.toVerifiableServices.Documented)

include hS in
/-- A verifiable that penalizes an operator leaves a link for a fraud that had none, and else there are none. -/
theorem processVerifiable_links {block : RewardedBlock} {ver : PoolVerifiable} {receipt : CReceipt}
    (hprocess : processVerifiable S chain keyHeight block ver receiptID st = .ok (receipt, st')) :
    penalizedBy S ver.toCVerifiable receipt = none ∧ st'.mInFlowLinks = st.mInFlowLinks ∨
      ∃ proof hash, penalizedBy S ver.toCVerifiable receipt = some hash ∧ ver.mVerifiableType = .proofOfFraud ∧
        getPoFProof S.toVerifiableServices ver.mProof = some proof ∧
        Penalizable S.toVerifiableServices chain st.mInFlowLinks proof.kbHeader hash ∧
        st'.mInFlowLinks = st.mInFlowLinks ++ [⟨S.getProofOfFraudID hash,
          verifiableReceiptID S ver.toCVerifiable receiptID, .PoFIDtoReceiptID⟩] := by
  by_cases htype : ver.mVerifiableType = .proofOfFraud
  · rcases processVerifiable_proofOfFraud htype hprocess with ⟨hinvalid, rfl⟩ | ⟨hverified, hsettles⟩
    · exact .inl ⟨penalizedBy_of_invalid hinvalid, rfl⟩
    · rcases processProofOfFraud_links hsettles with ⟨hinvalid, rfl⟩ | ⟨hvalid, hash, hfraud, hlinks⟩
      · exact .inl ⟨penalizedBy_of_invalid hinvalid, rfl⟩
      · obtain ⟨-, proof, hash', hproof, hpenalizable⟩ := (verifyProofOfFraud_iff hS).mp hverified
        obtain rfl : hash' = hash :=
          Option.some.inj ((fraudOf_of_penalizable hproof hpenalizable).symm.trans hfraud)
        exact .inr ⟨proof, hash', (if_pos ⟨htype, hvalid⟩).trans hfraud, htype, hproof, hpenalizable, hlinks⟩
  · exact .inl ⟨if_neg fun h => htype h.1, (processVerifiable_onlyPays htype hprocess).links⟩

/-! ### Turns -/

variable (hids : ∀ ver, S.getReceiptIDForVerifiable ver ≠ [])

include hids in
theorem verifiableReceiptID_ne_nil (ver : CVerifiable) (receiptID : Bytes) :
    verifiableReceiptID S ver receiptID ≠ [] := by
  unfold verifiableReceiptID
  split_ifs with hshort
  · exact hids ver
  · exact List.ne_nil_of_length_pos (by omega)

include hS hids in
theorem FraudLinks.processed {block : RewardedBlock} {ver : PoolVerifiable} {receipt : CReceipt}
    (hlinks : FraudLinks S chain.loadLink st.mInFlowLinks penalized)
    (hprocess : processVerifiable S chain keyHeight block ver receiptID st = .ok (receipt, st')) :
    FraudLinks S chain.loadLink st'.mInFlowLinks
      (penalized ++ (penalizedBy S ver.toCVerifiable receipt).toList) := by
  rcases processVerifiable_links hS hprocess with ⟨hnone, hsame⟩ | ⟨proof, hash, hsome, -, -, hpenalizable, hmore⟩
  · rw [hsame, hnone, Option.toList_none, List.append_nil]
    exact hlinks
  · rw [hmore, hsome, Option.toList_some]
    exact hlinks.concat hpenalizable.notInFlow hpenalizable.notStored (verifiableReceiptID_ne_nil hids _ _)

variable {v v' : PoolVerifiable} {flow flow' : VerifiableFlow} {turn : VerifiableTurn}

include hS hids in
theorem FraudLinks.judged (hlinks : FraudLinks S chain.loadLink flow.toRewardState.mInFlowLinks penalized)
    (hjudge : judgeVerifiable S mode chain keyHeight v flow = .ok (turn, v', flow')) :
    FraudLinks S chain.loadLink flow'.toRewardState.mInFlowLinks
      (penalized ++ (judgedPenalty S mode chain keyHeight v flow).toList) := by
  unfold judgeVerifiable at hjudge
  split at hjudge
  case h_1 => cases hjudge
  case h_2 hrefused =>
    have hnone : judgedPenalty S mode chain keyHeight v flow = none := by simp [judgedPenalty, hrefused]
    rw [hnone]
    split_ifs at hjudge
    · cases hjudge
      simpa using hlinks
    · cases hjudge
      simpa using hlinks
  case h_3 armed harmed =>
    split at hjudge
    case h_1 hmissing =>
      have hnone : judgedPenalty S mode chain keyHeight v flow = none := by simp [judgedPenalty, harmed, hmissing]
      rw [hnone]
      cases hjudge
      simpa using hlinks
    case h_2 blockReceipt hreceipt =>
      split at hjudge
      case h_1 => cases hjudge
      case h_2 receipt st hprocess =>
        have hpenalty : judgedPenalty S mode chain keyHeight v flow = penalizedBy S v.toCVerifiable receipt := by
          simp [judgedPenalty, harmed, hreceipt, hprocess]
        have hsame : armed.toCVerifiable = v.toCVerifiable :=
          (toCVerifiable_of_verifyActuateAndArm harmed : _ = v.copied.toCVerifiable)
        rw [hpenalty, (afterProcessing_onlyPays hjudge).links, ← hsame]
        exact hlinks.processed hS hids hprocess

include hS hids in
/-- A turn leaves a link for what it penalized. -/
theorem FraudLinks.turned (hlinks : FraudLinks S chain.loadLink flow.toRewardState.mInFlowLinks penalized)
    (hturn : verifiableTurn S mode chain keyHeight v flow = .ok (turn, v', flow')) :
    FraudLinks S chain.loadLink flow'.toRewardState.mInFlowLinks
      (penalized ++ (turnPenalty S mode chain keyHeight v flow).toList) := by
  unfold verifiableTurn at hturn
  split_ifs at hturn with hmarked hillegal
  · cases hturn
    rw [turnPenalty, if_pos (.inl hmarked)]
    simpa using hlinks
  · cases hturn
    rw [turnPenalty, if_pos (.inr hillegal)]
    simpa using hlinks
  · rw [turnPenalty, if_neg (not_or.mpr ⟨hmarked, hillegal⟩)]
    split at hturn
    case h_1 => cases hturn
    case h_2 hjudge =>
      cases hturn
      exact hlinks.judged hS hids hjudge
    case h_3 judged judgedFlow hjudge =>
      obtain rfl : (endOfTurn mode judged judgedFlow).2 = flow' :=
        (Prod.mk.inj (Prod.mk.inj (Except.ok.inj hturn)).2).2
      rw [endOfTurn_state]
      exact hlinks.judged hS hids hjudge

variable {running : ℕ → Bool} {vs vs' : List PoolVerifiable} {answer : Bool}

include hS hids in
/-- A run leaves a link for each of its penalties. -/
theorem FraudLinks.looped (hlinks : FraudLinks S chain.loadLink flow.toRewardState.mInFlowLinks penalized)
    (hloop : verifiableLoop S mode chain keyHeight running vs flow = .ok (answer, vs', flow')) :
    FraudLinks S chain.loadLink flow'.toRewardState.mInFlowLinks
      (penalized ++ loopPenalties S mode chain keyHeight running vs flow) := by
  induction vs generalizing flow answer vs' penalized with
  | nil =>
      cases hloop
      simpa [loopPenalties] using hlinks
  | cons v vs ih =>
      unfold verifiableLoop at hloop
      unfold loopPenalties
      split_ifs at hloop with hrunning
      · rw [if_pos hrunning, ← List.append_assoc]
        split at hloop
        case h_1 => cases hloop
        case h_2 hturn =>
          cases hloop
          rw [hturn, List.append_nil]
          exact hlinks.turned hS hids hturn
        case h_3 hturn =>
          rw [hturn]
          dsimp only
          split at hloop
          case h_1 => cases hloop
          case h_2 hrest =>
            cases hloop
            exact ih (hlinks.turned hS hids hturn) hrest
      · cases hloop
        rw [if_neg hrunning]
        simpa using hlinks

/-! ### What processing does to the verifiables -/

variable (mode v v') in
/-- A verifiable may be marked, if the call is to mark it. -/
structure Remarked : Prop where
  verifiable : v'.toCVerifiable = v.toCVerifiable
  unmarked : mode.markAsProcessed = false → v' = v

theorem Remarked.refl (mode : ProcessingMode) (v : PoolVerifiable) : Remarked mode v v := ⟨rfl, fun _ => rfl⟩

theorem afterProcessing_remarked {blockReceipt receipt : CReceipt}
    (hafter : afterProcessing mode v blockReceipt receipt flow = .ok (turn, v', flow')) : Remarked mode v v' := by
  refine ⟨(afterProcessing_keeps hafter).verifiable, fun hunmarked => ?_⟩
  by_cases hvalid : receipt.mResult = .valid
  · rw [afterProcessing_valid hvalid] at hafter
    split_ifs at hafter <;> (cases hafter; rfl)
  · rw [afterProcessing_invalid hvalid, hunmarked, if_neg Bool.false_ne_true] at hafter
    split_ifs at hafter
    · cases hafter
      rfl
    all_goals
      split at hafter
      case h_1 => cases hafter
      case h_2 =>
        cases hafter
        rfl

theorem verifiableTurn_remarked (hturn : verifiableTurn S mode chain keyHeight v flow = .ok (turn, v', flow')) :
    Remarked mode v v' := by
  have hjudge : ∀ {turn v' flow'}, judgeVerifiable S mode chain keyHeight v flow = .ok (turn, v', flow') →
      Remarked mode v v' := by
    intro turn v' flow' hjudge
    unfold judgeVerifiable at hjudge
    split at hjudge
    case h_1 => cases hjudge
    case h_2 => split_ifs at hjudge <;> (cases hjudge; exact .refl _ _)
    case h_3 =>
      split at hjudge
      case h_1 =>
        cases hjudge
        exact .refl _ _
      case h_2 =>
        split at hjudge
        case h_1 => cases hjudge
        case h_2 => exact afterProcessing_remarked hjudge
  unfold verifiableTurn at hturn
  split_ifs at hturn
  · cases hturn
    exact .refl _ _
  · cases hturn
    exact .refl _ _
  · split at hturn
    case h_1 => cases hturn
    case h_2 hjudged =>
      cases hturn
      exact hjudge hjudged
    case h_3 judged judgedFlow hjudged =>
      obtain rfl : (endOfTurn mode judged judgedFlow).1 = v' :=
        (Prod.mk.inj (Prod.mk.inj (Except.ok.inj hturn)).2).1
      obtain ⟨hsame, hunmarked⟩ := hjudge hjudged
      unfold endOfTurn
      refine ⟨?_, fun h => ?_⟩
      · dsimp only
        split_ifs
        · exact hsame
        · exact hsame
      · rw [h]
        exact hunmarked h

theorem verifiableLoop_remarked
    (hloop : verifiableLoop S mode chain keyHeight running vs flow = .ok (answer, vs', flow')) :
    List.Forall₂ (Remarked mode) vs vs' := by
  induction vs generalizing flow answer vs' with
  | nil =>
      cases hloop
      exact .nil
  | cons v vs ih =>
      unfold verifiableLoop at hloop
      split_ifs at hloop
      · split at hloop
        case h_1 => cases hloop
        case h_2 hturn =>
          cases hloop
          exact .cons (verifiableTurn_remarked hturn) (List.forall₂_same.mpr fun v _ => .refl _ v)
        case h_3 hturn =>
          split at hloop
          case h_1 => cases hloop
          case h_2 hrest =>
            cases hloop
            exact .cons (verifiableTurn_remarked hturn) (ih hrest)
      · cases hloop
        exact List.forall₂_same.mpr fun v _ => .refl _ v

/-! ### The same penalty over another storage -/

theorem penalizedBy_some_iff {ver : CVerifiable} {receipt : CReceipt} {hash : Bytes} :
    penalizedBy S ver receipt = some hash ↔
      ver.mVerifiableType = .proofOfFraud ∧ receipt.mResult = .valid ∧ fraudOf S ver.mProof = some hash := by
  unfold penalizedBy
  split_ifs with hfrauds
  · simp [hfrauds]
  · exact ⟨nofun, fun h => absurd ⟨h.1, h.2.1⟩ hfrauds⟩

include hS in
theorem verifyProofOfFraud_loadLink {hash : Bytes} {armed : PoolVerifiable}
    (haccepted : verifyProofOfFraud S.toVerifiableServices chain links v = .ok (some armed))
    (hfraud : fraudOf S v.mProof = some hash)
    (hunsaved : loadLink (S.getProofOfFraudID hash) .PoFIDtoReceiptID = none) :
    verifyProofOfFraud S.toVerifiableServices { chain with loadLink } links v = .ok (some armed) := by
  obtain ⟨hsigned, proof, hash', hproof, hpenalizable⟩ := (verifyProofOfFraud_iff hS).mp ⟨armed, haccepted⟩
  obtain rfl : hash' = hash := Option.some.inj ((fraudOf_of_penalizable hproof hpenalizable).symm.trans hfraud)
  have hstill : Penalizable S.toVerifiableServices { chain with loadLink } links proof.kbHeader hash' :=
    { hpenalizable with notStored := hunsaved }
  obtain ⟨armed', haccepted'⟩ := (verifyProofOfFraud_iff hS).mpr ⟨hsigned, proof, hash', hproof, hstill⟩
  rw [haccepted', armed_of_verifyProofOfFraud haccepted', armed_of_verifyProofOfFraud haccepted]

include hS in
theorem processVerifiable_loadLink {block : RewardedBlock} {ver : PoolVerifiable} {receipt : CReceipt} {hash : Bytes}
    (hprocess : processVerifiable S chain keyHeight block ver receiptID st = .ok (receipt, st'))
    (hpenalty : penalizedBy S ver.toCVerifiable receipt = some hash)
    (hunsaved : loadLink (S.getProofOfFraudID hash) .PoFIDtoReceiptID = none) :
    processVerifiable S { chain with loadLink } keyHeight block ver receiptID st = .ok (receipt, st') := by
  obtain ⟨htype, hvalid, hfraud⟩ := penalizedBy_some_iff.mp hpenalty
  have hcopied : ver.copied.mVerifiableType = .proofOfFraud := htype
  rcases processVerifiable_proofOfFraud htype hprocess with ⟨hinvalid, -⟩ | ⟨⟨armed, haccepted⟩, -⟩
  · rw [hinvalid] at hvalid
    cases hvalid
  · have hstill := verifyProofOfFraud_loadLink hS haccepted hfraud hunsaved
    unfold processVerifiable verifiableResult at hprocess ⊢
    rw [verifyActuateAndArm_proofOfFraud hcopied] at hprocess ⊢
    rw [hstill]
    rw [haccepted] at hprocess
    exact hprocess

theorem judgedPenalty_some_iff {hash : Bytes} :
    judgedPenalty S mode chain keyHeight v flow = some hash ↔
      ∃ armed blockReceipt receipt st', verifyActuateAndArm S.toVerifiableServices chain
          flow.toRewardState.mInFlowLinks flow.block.toRewardedBlock v.copied
          flow.toRewardState.rewardValidatedUpToNow = .ok (some armed) ∧
        blockReceiptForVerifiable S mode flow.block v.toCVerifiable = some blockReceipt ∧
        processVerifiable S chain keyHeight flow.block.toRewardedBlock armed
          (receiptIDForVerifiable S mode blockReceipt v.toCVerifiable) flow.toRewardState = .ok (receipt, st') ∧
        penalizedBy S v.toCVerifiable receipt = some hash := by
  constructor
  · intro hpenalty
    unfold judgedPenalty at hpenalty
    split at hpenalty
    case h_1 => cases hpenalty
    case h_2 => cases hpenalty
    case h_3 armed harmed =>
      split at hpenalty
      case h_1 => cases hpenalty
      case h_2 blockReceipt hreceipt =>
        split at hpenalty
        case h_1 => cases hpenalty
        case h_2 receipt st' hprocess => exact ⟨armed, blockReceipt, receipt, st', harmed, hreceipt, hprocess, hpenalty⟩
  · rintro ⟨armed, blockReceipt, receipt, st', harmed, hreceipt, hprocess, hpenalty⟩
    simp [judgedPenalty, harmed, hreceipt, hprocess, hpenalty]

theorem turnPenalty_some_iff {hash : Bytes} :
    turnPenalty S mode chain keyHeight v flow = some hash ↔
      v.HotProperties.markedAsProcessed = false ∧ legalVerifiable flow.block v.mVerifiableType = true ∧
        judgedPenalty S mode chain keyHeight v flow = some hash := by
  unfold turnPenalty
  cases v.HotProperties.markedAsProcessed <;> cases legalVerifiable flow.block v.mVerifiableType <;> simp

include hS in
/-- Whoever is penalized in a turn could be: the proof is one of fraud, and its fraud has no link. -/
theorem penalizable_of_turnPenalty {hash : Bytes} (hpenalty : turnPenalty S mode chain keyHeight v flow = some hash) :
    v.mVerifiableType = .proofOfFraud ∧ ∃ proof, getPoFProof S.toVerifiableServices v.mProof = some proof ∧
      Penalizable S.toVerifiableServices chain flow.toRewardState.mInFlowLinks proof.kbHeader hash := by
  obtain ⟨-, -, hjudged⟩ := turnPenalty_some_iff.mp hpenalty
  obtain ⟨armed, blockReceipt, receipt, st', harmed, -, hprocess, hpenalized⟩ := judgedPenalty_some_iff.mp hjudged
  obtain ⟨htype, -, hfraud⟩ := penalizedBy_some_iff.mp hpenalized
  have hcopied : v.copied.mVerifiableType = .proofOfFraud := htype
  rw [verifyActuateAndArm_proofOfFraud hcopied] at harmed
  obtain ⟨-, proof, hash', hproof, hpenalizable⟩ := (verifyProofOfFraud_iff hS).mp ⟨armed, harmed⟩
  obtain rfl : hash' = hash := Option.some.inj ((fraudOf_of_penalizable hproof hpenalizable).symm.trans hfraud)
  exact ⟨htype, proof, hproof, hpenalizable⟩

include hS in
/-- A penalty does not depend on what is stored, beside the link of its own fraud. -/
theorem turnPenalty_loadLink {hash : Bytes} (hpenalty : turnPenalty S mode chain keyHeight v flow = some hash)
    (hunsaved : loadLink (S.getProofOfFraudID hash) .PoFIDtoReceiptID = none) :
    turnPenalty S mode { chain with loadLink } keyHeight v flow = some hash := by
  obtain ⟨hmark, hlegal, hjudged⟩ := turnPenalty_some_iff.mp hpenalty
  obtain ⟨armed, blockReceipt, receipt, st', harmed, hreceipt, hprocess, hpenalized⟩ :=
    judgedPenalty_some_iff.mp hjudged
  obtain ⟨htype, -, hfraud⟩ := penalizedBy_some_iff.mp hpenalized
  have hsame : armed.toCVerifiable = v.toCVerifiable :=
    (toCVerifiable_of_verifyActuateAndArm harmed : _ = v.copied.toCVerifiable)
  have hcopied : v.copied.mVerifiableType = .proofOfFraud := htype
  rw [verifyActuateAndArm_proofOfFraud hcopied] at harmed
  refine turnPenalty_some_iff.mpr ⟨hmark, hlegal, judgedPenalty_some_iff.mpr
    ⟨armed, blockReceipt, receipt, st', ?_, hreceipt, ?_, hpenalized⟩⟩
  · rw [verifyActuateAndArm_proofOfFraud hcopied]
    exact verifyProofOfFraud_loadLink hS harmed hfraud hunsaved
  · exact processVerifiable_loadLink hS hprocess (hsame.symm ▸ hpenalized) hunsaved

end Links

end Gridnet
