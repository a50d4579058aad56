import Gridnet.FraudFlows

/-! Every fraud is penalized once, and a proof stays of use until its fraud was penalized for good: exactly what a run
of flows has to avoid for that. -/

namespace Gridnet

variable {Trie : Type} {S : RewardServices Trie}

/-! ### Saving links -/

namespace LinkStorage

variable (saved : LinkStorage) {write : ℕ → LinkWrite} {link : CLinkContainer} {links : List CLinkContainer}

/-- A link that is written is loaded from then on, and no other key is touched. -/
theorem loadLink_saveLink (hwritten : write 0 = .written) (hsize : 32 ≤ link.mKey.length ∧ link.mKey.length ≤ 35)
    (htype : link.mType = .PoFIDtoReceiptID) (hvalue : link.mValue ≠ []) :
    ∃ saved', saveLink (write 0) link saved = (true, saved') ∧ ∀ key,
      saved'.loadLink key .PoFIDtoReceiptID =
        if key = link.mKey then some link.mValue else saved.loadLink key .PoFIDtoReceiptID := by
  refine ⟨fun type key => if type = link.mType ∧ key = link.mKey then some link.mValue else saved type key, ?_,
    fun key => ?_⟩
  · unfold saveLink
    rw [hwritten, if_neg nofun, if_neg (by omega), if_neg nofun]
  · unfold loadLink
    dsimp only
    by_cases hkey : key = link.mKey
    · rw [if_pos ⟨htype.symm, hkey⟩, if_pos hkey, Option.filter_some, if_pos (decide_eq_true hvalue)]
    · rw [if_neg (not_and_of_not_right _ hkey), if_neg hkey]

/-- The loop saves all links, if all are written. -/
theorem saveLinks_written (hwritten : ∀ i, write i = .written)
    (hsized : ∀ link ∈ links, 32 ≤ link.mKey.length ∧ link.mKey.length ≤ 35)
    (htyped : ∀ link ∈ links, link.mType = .PoFIDtoReceiptID) (hvalued : ∀ link ∈ links, link.mValue ≠ []) :
    ∃ saved', saveLinks write links saved = (true, saved') ∧
      (∀ key ∈ links.map CLinkContainer.mKey, (saved'.loadLink key .PoFIDtoReceiptID).isSome = true) ∧
      ∀ key ∉ links.map CLinkContainer.mKey,
        saved'.loadLink key .PoFIDtoReceiptID = saved.loadLink key .PoFIDtoReceiptID := by
  induction links generalizing saved write with
  | nil => exact ⟨saved, rfl, nofun, fun _ _ => rfl⟩
  | cons link links ih =>
      rw [List.forall_mem_cons] at hsized htyped hvalued
      obtain ⟨saved', hsaved, hload⟩ := loadLink_saveLink saved (hwritten 0) hsized.1 htyped.1 hvalued.1
      obtain ⟨saved'', hrest, hpresent, hother⟩ := ih saved' (fun i => hwritten (i + 1)) hsized.2 htyped.2 hvalued.2
      refine ⟨saved'', ?_, ?_, ?_⟩
      · rw [saveLinks, hsaved]
        exact hrest
      · intro key hkey
        by_cases hrestKey : key ∈ links.map CLinkContainer.mKey
        · exact hpresent key hrestKey
        · have hhere : key = link.mKey := by simpa [hrestKey] using hkey
          rw [hother key hrestKey, hload key, if_pos hhere]
          rfl
      · intro key hkey
        rw [List.map_cons, List.mem_cons, not_or] at hkey
        rw [hother key hkey.2, hload key, if_neg hkey.1]

/-- No link is saved if the first write fails. -/
theorem saveLinks_failed (hfailed : write 0 = .failed) (links : List CLinkContainer) :
    (saveLinks write links saved).2 = saved ∧ ((saveLinks write links saved).1 = true → links = []) := by
  cases links with
  | nil => exact ⟨rfl, fun _ => rfl⟩
  | cons link links =>
      have hfails : saveLink (write 0) link saved = (false, saved) := by
        unfold saveLink
        rw [hfailed, if_neg nofun, if_pos rfl]
        split_ifs <;> rfl
      rw [saveLinks, hfails]
      exact ⟨rfl, nofun⟩

end LinkStorage

/-! ### Calls that end -/

section Calls

variable {α β : Type}

theorem of_onResult {run : Except ProcessFault α} {rest : α → Option (Except ProcessFault β)} {b : β}
    (hrun : onResult run rest = some (.ok b)) : ∃ a, run = .ok a ∧ rest a = some (.ok b) := by
  cases run with
  | error err => cases hrun
  | ok a => exact ⟨a, rfl, hrun⟩

theorem of_onReward {run : Option (Except ProcessFault (Option BigInt))}
    {rest : Option BigInt → Option (Except ProcessFault β)} {b : β} (hrun : onReward run rest = some (.ok b)) :
    ∃ reward, run = some (.ok reward) ∧ rest reward = some (.ok b) := by
  unfold onReward at hrun
  split at hrun
  case h_1 => cases hrun
  case h_2 => cases hrun
  case h_3 reward => exact ⟨reward, rfl, hrun⟩

/-- Of a block that is there every reward can be computed. -/
theorem isSome_of_getEpochReward {bm : BlockLookup Trie} {settings : RewardSettings Trie} {fuel : ℕ}
    {live : LiveBlock Trie} {reward : BigInt} {mode : eEpochRewardCalculationMode} {epochReward : Option BigInt}
    (hreward : getEpochReward bm settings fuel (some live) reward mode = some (.ok epochReward)) :
    epochReward.isSome = true := by
  unfold getEpochReward at hreward
  cases mode with
  | total => cases hreward
  | ALeader =>
      cases hreward
      rfl
  | BLeader =>
      dsimp only at hreward
      split_ifs at hreward
      · cases hreward
        rfl
      · cases hreward
        rfl
      · obtain ⟨pool, -, hpool⟩ := Option.map_eq_some_iff.mp hreward
        cases pool with
        | error err => cases hpool
        | ok pool =>
            cases hpool
            rfl

theorem of_onEpochs {e : FlowEnding Trie} {rewardUptilNow : BigInt}
    {rest : Bool × BigInt → Option (Except ProcessFault β)} {b : β}
    (hrun : e.onEpochs rewardUptilNow rest = some (.ok b)) : ∃ total, rest (true, total) = some (.ok b) := by
  have hongoing : ∀ {epochs}, flowEpochs e.context e.fuel e.live e.blockProposal.isKeyBlock rewardUptilNow =
      some (.ok epochs) → epochs.1 = true := by
    intro epochs hepochs
    unfold flowEpochs at hepochs
    obtain ⟨epoch1Reward, hfirst, hepochs⟩ := of_onReward hepochs
    have hfirstSome := isSome_of_getEpochReward hfirst
    dsimp only at hepochs
    split_ifs at hepochs
    · obtain ⟨epoch2Reward, hsecond, hepochs⟩ := of_onReward hepochs
      cases hepochs
      simp [hfirstSome, isSome_of_getEpochReward hsecond]
    · cases hepochs
      exact hfirstSome
  unfold FlowEnding.onEpochs at hrun
  split at hrun
  case h_1 => cases hrun
  case h_2 => cases hrun
  case h_3 epochs hepochs => exact ⟨epochs.2, by rw [← hongoing hepochs]; exact hrun⟩

end Calls

/-! ### What a flow penalizes -/

section Penalties

variable {chain : ChainView} {call : VerifiableCall} {verifiables : List PoolVerifiable}
  {processed : ProcessedVerifiables} {saved saved' : LinkStorage} {f f' : OpenFlow} {e : FlowEnding Trie}
  {penalized : List Bytes} {success : Bool}

theorem processVerifiables_remarked (hprocess : f.processVerifiables S call verifiables = .ok processed) :
    List.Forall₂ (Remarked call.mode) verifiables processed.verifiables := by
  unfold OpenFlow.processVerifiables at hprocess
  cases hloop : processVerifiables S call.mode call.chain call.keyHeight call.running verifiables
      (f.verifiableFlow call) with
  | error err =>
      rw [hloop] at hprocess
      cases hprocess
  | ok outcome =>
      rw [hloop] at hprocess
      cases hprocess
      exact verifiableLoop_remarked hloop

variable (hS : S.toVerifiableServices.Documented) (hids : ∀ ver, S.getReceiptIDForVerifiable ver ≠ [])

include hS hids in
theorem processVerifiables_links (hlinks : FraudLinks S call.chain.loadLink f.mInFlowLinks f.penalized)
    (hprocess : f.processVerifiables S call verifiables = .ok processed) :
    FraudLinks S call.chain.loadLink processed.flow.mInFlowLinks processed.flow.penalized := by
  unfold OpenFlow.processVerifiables at hprocess
  cases hloop : processVerifiables S call.mode call.chain call.keyHeight call.running verifiables
      (f.verifiableFlow call) with
  | error err =>
      rw [hloop] at hprocess
      cases hprocess
  | ok outcome =>
      rw [hloop] at hprocess
      cases hprocess
      have hflow : FraudLinks S call.chain.loadLink (f.verifiableFlow call).toRewardState.mInFlowLinks f.penalized :=
        hlinks
      exact hflow.looped hS hids hloop

include hS hids in
/-- The pass that commits leaves links for what it penalized, and saves them if nothing else went wrong. -/
theorem commitPass_links {dry : DryPass} {initialPerspective : Bytes}
    (hlinks : FraudLinks S chain.loadLink f.mInFlowLinks f.penalized)
    (hpass : e.commitPass S chain dry initialPerspective saved f = some (.ok (success, saved', f'))) :
    success = false ∧ saved' = saved ∨
      FraudLinks S chain.loadLink f'.mInFlowLinks f'.penalized ∧
        saved.saveLinks e.write f'.mInFlowLinks = (success, saved') := by
  unfold FlowEnding.commitPass at hpass
  split_ifs at hpass
  · cases hpass
    exact .inl ⟨rfl, rfl⟩
  obtain ⟨txs, -, hpass⟩ := of_onResult hpass
  dsimp only at hpass
  split_ifs at hpass
  · cases hpass
    exact .inl ⟨rfl, rfl⟩
  · cases hpass
    exact .inl ⟨rfl, rfl⟩
  obtain ⟨first, hfirst, hpass⟩ := of_onResult hpass
  have hafter : FraudLinks S chain.loadLink (f.afterTransactions txs).mInFlowLinks
      (f.afterTransactions txs).penalized := hlinks
  have hfirstLinks : FraudLinks S chain.loadLink first.flow.mInFlowLinks first.flow.penalized :=
    processVerifiables_links hS hids hafter hfirst
  split_ifs at hpass
  · cases hpass
    exact .inl ⟨rfl, rfl⟩
  obtain ⟨total, hpass⟩ := of_onEpochs hpass
  obtain ⟨last, hlast, hpass⟩ := of_onResult hpass
  have hlastLinks : FraudLinks S chain.loadLink last.flow.mInFlowLinks last.flow.penalized :=
    processVerifiables_links hS hids hfirstLinks hlast
  split_ifs at hpass
  · cases hpass
    exact .inl ⟨rfl, rfl⟩
  · cases hpass
    exact .inl ⟨rfl, rfl⟩
  · cases hpass
    exact .inr ⟨hlastLinks, by rw [Bool.and_true]⟩

variable (saved saved' penalized) in
/-- What was penalized for good was penalized once, had no link in storage and has one now; no other was saved. -/
structure PenaltiesSettled : Prop where
  once : penalized.Nodup
  unsaved : ∀ hash ∈ penalized, saved.loadLink (S.getProofOfFraudID hash) .PoFIDtoReceiptID = none
  present : ∀ hash ∈ penalized, (saved'.loadLink (S.getProofOfFraudID hash) .PoFIDtoReceiptID).isSome = true
  other : ∀ key ∉ penalized.map S.getProofOfFraudID,
    saved'.loadLink key .PoFIDtoReceiptID = saved.loadLink key .PoFIDtoReceiptID

theorem PenaltiesSettled.nothing (saved : LinkStorage) : PenaltiesSettled (S := S) saved saved [] := ⟨.nil, nofun, nofun, fun _ _ => rfl⟩

include hS in
theorem FraudLinks.settled {links : List CLinkContainer} {write : ℕ → LinkWrite}
    (hlinks : FraudLinks S saved.loadLink links penalized)
    (hwrites : (∀ i, write i = .written) ∨ write 0 = .failed)
    (hsaves : saved.saveLinks write links = (success, saved')) :
    PenaltiesSettled (S := S) saved saved' (if success then penalized else []) := by
  rcases hwrites with hwritten | hfailed
  · have hsized : ∀ link ∈ links, 32 ≤ link.mKey.length ∧ link.mKey.length ≤ 35 := by
      intro link hlink
      have hkey : link.mKey ∈ penalized.map S.getProofOfFraudID :=
        hlinks.keys ▸ List.mem_map_of_mem hlink
      obtain ⟨hash, -, hID⟩ := List.mem_map.mp hkey
      exact hID ▸ hS.fraudID_length hash
    obtain ⟨saved'', hsaved, hpresent, hother⟩ :=
      saved.saveLinks_written hwritten hsized hlinks.typed hlinks.valued
    rw [hsaved] at hsaves
    cases hsaves
    rw [hlinks.keys] at hpresent hother
    exact ⟨hlinks.distinct.of_map, hlinks.unsaved, fun hash hhash => hpresent _ (List.mem_map_of_mem hhash), hother⟩
  · obtain ⟨hsame, hempty⟩ := saved.saveLinks_failed hfailed links
    rw [hsaves] at hsame hempty
    obtain rfl : saved' = saved := hsame
    have hnone : (if success then penalized else []) = [] := by
      cases success with
      | false => rfl
      | true =>
          have hkeys := hlinks.keys
          rw [hempty rfl] at hkeys
          exact List.map_eq_nil_iff.mp hkeys.symm
    rw [hnone]
    exact .nothing _

/-- A flow that is to be committed starts anew, or had penalized nobody, and its links are written, or the first one
fails. -/
def FlowEnding.Sound (f : OpenFlow) (e : FlowEnding Trie) : Prop :=
  e.commit = true → (e.doInitialCleanUp = true ∨ f.mInFlowLinks = []) ∧
    ((∀ i, e.write i = .written) ∨ e.write 0 = .failed)

include hS hids in
theorem endFlow_settled (hchain : chain.loadLink = saved.loadLink) (hsound : e.Sound f)
    (hlinks : FraudLinks S saved.loadLink f.mInFlowLinks f.penalized)
    (hend : e.endFlow S chain saved f = some (.ok (success, saved', penalized))) :
    PenaltiesSettled (S := S) saved saved' penalized := by
  unfold FlowEnding.endFlow at hend
  dsimp only at hend
  split at hend
  case h_1 => cases hend
  case h_2 => cases hend
  case h_3 dry hdry =>
    split_ifs at hend with hcommit
    · cases hend
      exact .nothing _
    · have hcommits : e.commit = true := by
        cases hflag : e.commit with
        | false => exact absurd (by rw [hflag]; rfl) hcommit
        | true => rfl
      obtain ⟨hanew, hwrites⟩ := hsound hcommits
      have hnobody : (e.initialCleanUp f).penalized = [] := by
        unfold FlowEnding.initialCleanUp
        split_ifs with hcleaned
        · rfl
        · have hkeys := hlinks.keys
          rw [hanew.resolve_left hcleaned] at hkeys
          exact List.map_eq_nil_iff.mp hkeys.symm
      split at hend
      case h_1 => cases hend
      case h_2 => cases hend
      case h_3 pass hpass =>
        cases hend
        rw [hnobody] at hpass
        rcases commitPass_links hS hids .nil hpass with ⟨rfl, rfl⟩ | ⟨hend, hsaves⟩
        · exact .nothing _
        · rw [hchain] at hend
          exact hend.settled hS hwrites hsaves

end Penalties

/-! ### Runs -/

section Runs

/-- A verifiable without the mark. -/
def PoolVerifiable.unmarked (v : PoolVerifiable) : PoolVerifiable :=
  { v with HotProperties := { v.HotProperties with markedAsProcessed := false } }

variable (S) in
/-- Of a node that began with the links `saved`: nobody was penalized for good twice for one key block, and a proof that
could be processed at first still can, new or out of the pool, unless its fraud was penalized for good. -/
structure PenalizedOnce (saved : LinkStorage) (node : FraudNode) : Prop where
  once : node.penalized.Nodup
  pending : ∀ {view mode keyHeight flow v hash}, v ∈ node.mMemPool ∨ v.HotProperties.markedAsProcessed = false →
    turnPenalty S mode { view with loadLink := saved.loadLink } keyHeight v.unmarked flow = some hash →
    S.getProofOfFraudID hash ∉ node.penalized.map S.getProofOfFraudID →
    turnPenalty S mode (node.chain view) keyHeight v flow = some hash

/-- No proof of fraud of the pool is marked, and flows that are committed are sound. -/
def FlowEvent.Sound (node : FraudNode) : FlowEvent Trie → Prop
  | .processMemPool call unprocessed => call.mode.markAsProcessed = true →
      ∀ i ∈ unprocessed, ∀ v, node.mMemPool[i]? = some v → v.mVerifiableType ≠ .proofOfFraud
  | .endFlow e => ∀ f, node.flow = some f → e.Sound f
  | _ => True

variable (S) in
/-- What holds between events. -/
structure FraudNode.Inv (saved : LinkStorage) (node : FraudNode) : Prop where
  once : node.penalized.Nodup
  present : ∀ hash ∈ node.penalized,
    (node.saved.loadLink (S.getProofOfFraudID hash) .PoFIDtoReceiptID).isSome = true
  other : ∀ key ∉ node.penalized.map S.getProofOfFraudID,
    node.saved.loadLink key .PoFIDtoReceiptID = saved.loadLink key .PoFIDtoReceiptID
  pool : ∀ v ∈ node.mMemPool, v.mVerifiableType = .proofOfFraud → v.HotProperties.markedAsProcessed = false
  flow : ∀ f, node.flow = some f → FraudLinks S node.saved.loadLink f.mInFlowLinks f.penalized

variable {saved : LinkStorage} {node node' : FraudNode} {event : FlowEvent Trie}

theorem FraudNode.Inv.penalizedOnce (hS : S.toVerifiableServices.Documented) (hinv : node.Inv S saved) :
    PenalizedOnce S saved node := by
  refine ⟨hinv.once, ?_⟩
  intro view mode keyHeight flow v hash hv hpenalty hpending
  obtain ⟨htype, proof, -, hpenalizable⟩ := penalizable_of_turnPenalty hS hpenalty
  have hmark : v.HotProperties.markedAsProcessed = false := by
    rcases hv with hpool | hnew
    · exact hinv.pool v hpool htype
    · exact hnew
  have hunmarked : v.unmarked = v := by
    unfold PoolVerifiable.unmarked
    rw [← hmark]
  rw [hunmarked] at hpenalty
  have hunsaved : node.saved.loadLink (S.getProofOfFraudID hash) .PoFIDtoReceiptID = none :=
    (hinv.other _ hpending).trans hpenalizable.notStored
  exact (turnPenalty_loadLink hS hpenalty hunsaved :)

theorem FraudNode.Inv.start (saved : LinkStorage) : FraudNode.Inv S saved { saved } :=
  ⟨.nil, nofun, fun _ _ => rfl, nofun, nofun⟩

/-- An event that only changes the flow. -/
theorem FraudNode.Inv.withFlow (hinv : node.Inv S saved) {flow : Option OpenFlow}
    (hflow : ∀ f, flow = some f → FraudLinks S node.saved.loadLink f.mInFlowLinks f.penalized) :
    FraudNode.Inv S saved { node with flow } :=
  ⟨hinv.once, hinv.present, hinv.other, hinv.pool, hflow⟩

/-- An event that only changes the pool. -/
theorem FraudNode.Inv.withMemPool (hinv : node.Inv S saved) {mMemPool : List PoolVerifiable}
    (hpool : ∀ v ∈ mMemPool, v.mVerifiableType = .proofOfFraud → v.HotProperties.markedAsProcessed = false) :
    FraudNode.Inv S saved { node with mMemPool } :=
  ⟨hinv.once, hinv.present, hinv.other, hpool, hinv.flow⟩

/-- A flow that ends settles its penalties. -/
theorem FraudNode.Inv.settled (hinv : node.Inv S saved) {saved' : LinkStorage} {penalized : List Bytes}
    (hsettled : PenaltiesSettled (S := S) node.saved saved' penalized) :
    FraudNode.Inv S saved
      { node with saved := saved', penalized := node.penalized ++ penalized, flow := none } := by
  refine ⟨?_, ?_, ?_, hinv.pool, nofun⟩
  · refine List.Nodup.append hinv.once hsettled.once fun hash hbefore hnow => ?_
    have hpresent := hinv.present hash hbefore
    rw [hsettled.unsaved hash hnow] at hpresent
    cases hpresent
  · intro hash hhash
    by_cases hnow : S.getProofOfFraudID hash ∈ penalized.map S.getProofOfFraudID
    · obtain ⟨hash', hhash', hsame⟩ := List.mem_map.mp hnow
      exact hsame ▸ hsettled.present hash' hhash'
    · rw [hsettled.other _ hnow]
      exact hinv.present hash ((List.mem_append.mp hhash).resolve_right fun h => hnow (List.mem_map_of_mem h))
  · intro key hkey
    rw [List.map_append, List.mem_append, not_or] at hkey
    exact (hsettled.other key hkey.2).trans (hinv.other key hkey.1)

theorem mem_writeBack {v : PoolVerifiable} {pool : List PoolVerifiable} {places : List ℕ} {vs : List PoolVerifiable}
    (hv : v ∈ writeBack pool places vs) : v ∈ pool ∨ v ∈ vs := by
  induction places generalizing pool vs with
  | nil =>
      rw [writeBack] at hv
      · exact .inl hv
      · nofun
  | cons i places ih =>
      cases vs with
      | nil => exact .inl hv
      | cons v' vs =>
          rcases ih hv with hpool | hvs
          · rcases List.mem_or_eq_of_mem_set hpool with hpool | rfl
            · exact .inl hpool
            · exact .inr List.mem_cons_self
          · exact .inr (List.mem_cons_of_mem _ hvs)

/-- What was processed is what there was, but for its marks. -/
theorem exists_of_remarked {mode : ProcessingMode} {vs vs' : List PoolVerifiable} {v' : PoolVerifiable}
    (hremarked : List.Forall₂ (Remarked mode) vs vs') (hv' : v' ∈ vs') : ∃ v ∈ vs, Remarked mode v v' := by
  induction hremarked with
  | nil => cases hv'
  | cons hhead _ ih =>
      rcases List.mem_cons.mp hv' with rfl | hrest
      · exact ⟨_, List.mem_cons_self, hhead⟩
      · obtain ⟨v, hv, hremarked⟩ := ih hrest
        exact ⟨v, List.mem_cons_of_mem _ hv, hremarked⟩

variable (hS : S.toVerifiableServices.Documented) (hids : ∀ ver, S.getReceiptIDForVerifiable ver ≠ [])

include hS hids in
/-- What processing verifiables does to a node. -/
theorem process_inv {call : VerifiableCall} {verifiables verifiables' : List PoolVerifiable}
    (hinv : node.Inv S saved) (hprocess : node.process S call verifiables = .ok (verifiables', node')) :
    node'.Inv S saved ∧ node'.mMemPool = node.mMemPool ∧ List.Forall₂ (Remarked call.mode) verifiables verifiables' := by
  unfold FraudNode.process at hprocess
  split at hprocess
  case h_1 =>
    split_ifs at hprocess with hempty
    cases hprocess
    rw [hempty]
    exact ⟨hinv, rfl, .nil⟩
  case h_2 f hf =>
    cases hdone : f.processVerifiables S { call with chain := node.chain call.chain } verifiables with
    | error err =>
        rw [hdone] at hprocess
        cases hprocess
    | ok processed =>
        rw [hdone] at hprocess
        cases hprocess
        have hlinks := processVerifiables_links hS hids (hinv.flow f hf) hdone
        refine ⟨hinv.withFlow ?_, rfl, (processVerifiables_remarked hdone :)⟩
        rintro _ ⟨⟩
        exact hlinks

include hS hids in
/-- Every sound event keeps the invariant. -/
theorem step_inv (hinv : node.Inv S saved) (hsound : event.Sound node)
    (hstep : node.step S event = some (.ok node')) : node'.Inv S saved := by
  cases event with
  | addToMemPool v =>
      cases hstep
      refine hinv.withMemPool fun v' hv' htype => ?_
      rcases List.mem_append.mp hv' with hpool | hnew
      · exact hinv.pool v' hpool htype
      · rw [List.mem_singleton.mp hnew]
  | deleteMemPoolObject i =>
      cases hstep
      exact hinv.withMemPool fun v' hv' => hinv.pool v' (List.mem_of_mem_eraseIdx hv')
  | startFlow perspective =>
      cases hstep
      split_ifs
      · exact hinv
      · refine hinv.withFlow fun f hf => ?_
        obtain ⟨l, -, rfl⟩ := Option.map_eq_some_iff.mp hf
        exact .nil
  | addVerifiableToFlow v =>
      cases hstep
      refine hinv.withFlow fun f hf => ?_
      obtain ⟨f, hopen, rfl⟩ := Option.map_eq_some_iff.mp hf
      exact hinv.flow f hopen
  | processTransactions transactions =>
      simp only [FraudNode.step] at hstep
      split at hstep
      case h_1 => cases hstep
      case h_2 f hf =>
        cases htxs : transactions f.mFlowStateDB with
        | error err =>
            rw [htxs] at hstep
            cases hstep
        | ok txs =>
            rw [htxs] at hstep
            cases hstep
            refine hinv.withFlow ?_
            rintro _ ⟨⟩
            exact hinv.flow f hf
  | processMemPool call unprocessed =>
      simp only [FraudNode.step] at hstep
      cases hprocess : node.process S call ((unprocessed.filter (· < node.mMemPool.length)).filterMap
          (node.mMemPool[·]?)) with
      | error err =>
          rw [hprocess] at hstep
          cases hstep
      | ok done =>
          rw [hprocess] at hstep
          cases hstep
          obtain ⟨hafter, -, hremarked⟩ := process_inv hS hids hinv hprocess
          refine hafter.withMemPool fun v' hv' htype => ?_
          rcases mem_writeBack hv' with hpool | hprocessed
          · exact hinv.pool v' hpool htype
          · obtain ⟨v, hv, hsame, hunmarked⟩ := exists_of_remarked hremarked hprocessed
            obtain ⟨i, hi, hplace⟩ := List.mem_filterMap.mp hv
            cases hmarks : call.mode.markAsProcessed with
            | false =>
                rw [hunmarked hmarks] at htype ⊢
                exact hinv.pool v (List.mem_of_getElem? hplace) htype
            | true =>
                have hkind : v'.mVerifiableType = v.mVerifiableType := congrArg CVerifiable.mVerifiableType hsame
                exact absurd (hkind.symm.trans htype) (hsound hmarks i (List.mem_filter.mp hi).1 v hplace)
  | processVerifiables call verifiables =>
      simp only [FraudNode.step] at hstep
      cases hprocess : node.process S call verifiables with
      | error err =>
          rw [hprocess] at hstep
          cases hstep
      | ok done =>
          rw [hprocess] at hstep
          cases hstep
          exact (process_inv hS hids hinv hprocess).1
  | endFlow e =>
      simp only [FraudNode.step] at hstep
      split at hstep
      case h_1 =>
        cases hstep
        exact hinv
      case h_2 f hf =>
        obtain ⟨result, hend, hresult⟩ := Option.map_eq_some_iff.mp hstep
        cases result with
        | error err => cases hresult
        | ok outcome =>
            cases hresult
            exact hinv.settled (endFlow_settled hS hids rfl (hsound f hf) (hinv.flow f hf) hend)
  | abortFlow =>
      cases hstep
      exact hinv.withFlow nofun

include hS hids in
theorem reached_inv (hreached : FraudNode.Reached S FlowEvent.Sound saved node) : node.Inv S saved := by
  induction hreached with
  | start => exact .start saved
  | step _ hsound hstep ih => exact step_inv hS hids ih hsound hstep

include hS hids in
/-- Every fraud is penalized once in a run whose events are all sound, and a proof stays of use until then. -/
theorem penalizedOnce_of_sound (hreached : FraudNode.Reached S FlowEvent.Sound saved node) :
    PenalizedOnce S saved node :=
  (reached_inv hS hids hreached).penalizedOnce hS

end Runs

/-! ### A proof that is committed, and one that formation marks -/

section Sample

variable {Allowed : FraudNode → FlowEvent Trie → Prop}

/-- One event after the other; `none` where one of them ends in a fault or does not end. -/
def FraudNode.run (S : RewardServices Trie) (events : List (FlowEvent Trie)) (node : FraudNode) : Option FraudNode :=
  events.foldlM (fun node event => (node.step S event).bind Except.toOption) node

theorem FraudNode.Reached.run {saved : LinkStorage} {node node' : FraudNode} {events : List (FlowEvent Trie)}
    (hreached : FraudNode.Reached S Allowed saved node) (hallowed : ∀ event ∈ events, ∀ node, Allowed node event)
    (hrun : node.run S events = some node') : FraudNode.Reached S Allowed saved node' := by
  induction events generalizing node with
  | nil =>
      cases hrun
      exact hreached
  | cons event events ih =>
      rw [List.forall_mem_cons] at hallowed
      rw [FraudNode.run, List.foldlM_cons] at hrun
      obtain ⟨next, hnext, hrest⟩ := Option.bind_eq_some_iff.mp hrun
      obtain ⟨result, hstep, hresult⟩ := Option.bind_eq_some_iff.mp hnext
      cases result with
      | error err => cases hresult
      | ok after =>
          cases hresult
          exact ih (hreached.step (hallowed.1 node) hstep) hallowed.2 hrest

/-- The call for the proof that a reporter made, over the sample chain. -/
def proofCall : VerifiableCall where
  mode := formationRun false
  chain := sampleChain
  keyHeight := 0
  running _ := true
  block := {}

/-- The flow in which it is processed. -/
def proofFlow : VerifiableFlow := (OpenFlow.start sampleRewardState.ledger).verifiableFlow proofCall

theorem sampleRewards_receiptID (ver : CVerifiable) : sampleRewards.getReceiptIDForVerifiable ver ≠ [] :=
  nofun

/-- What the operator of a data block is paid for the proof: 80, and 40% of that. -/
def proofReward : PoolVerifiable where
  mVerifiableType := .minerReward
  mAffectedDomains := [⟨sampleAddress 1, 112⟩]

def receiptOf (guid : UInt8) (v : PoolVerifiable) : CReceipt where
  mGUID := List.replicate 33 guid
  mVerifiableID := loggingRewards.getHash v.toCVerifiable
  mResult := .valid

/-- The end of a flow that commits a data block with the proof. -/
def proofEnding : FlowEnding Bytes where
  commit := true
  blockProposal :=
    { isKeyBlock := false
      height := 1
      mMinersID := sampleAddress 1
      mTotalReward := 112
      mPaidToLeader := 101
      verifiableReceipts := [receiptOf 5 forgedProof, receiptOf 6 proofReward] }
  live := sampleLive false 1 112 none
  context := sampleContext
  fuel := 1
  transactions _ l := .ok { sampleTransactions 0 with ledger := l }
  getPerspective l := if (l.findByID (sampleAddress 1)).isSome then [1] else [0]
  runningAgain _ := true
  runningForLeaderAgain _ := true
  write _ := .written

/-- The flow begins over the domains of the penalized operator and of the treasury. -/
def proofCommitted : List (FlowEvent Bytes) :=
  [.addToMemPool forgedProof.toCVerifiable,
    .startFlow (some (Ledger.save sampleChain.liveDomains (sampleAddress 3) { assetType := .BigInt, assetValue := 7 })),
    .addVerifiableToFlow forgedProof, .addVerifiableToFlow proofReward, .endFlow proofEnding]

/-- One operator is penalized for good, and the law holds. -/
theorem proofCommitted_penalizedOnce : ∃ node, node.penalized.length = 1 ∧
    PenalizedOnce loggingRewards (fun _ _ => none) node := by
  have hpenalized : (FraudNode.run loggingRewards proofCommitted { saved := fun _ _ => none }).map
      (·.penalized.length) = some 1 := by decide +kernel
  obtain ⟨node, hrun, hone⟩ := Option.map_eq_some_iff.mp hpenalized
  have hsound : ∀ event ∈ proofCommitted, ∀ node, FlowEvent.Sound node event := by
    intro event hevent node
    simp only [proofCommitted, List.mem_cons, List.not_mem_nil, or_false] at hevent
    rcases hevent with rfl | rfl | rfl | rfl | rfl
    · trivial
    · trivial
    · trivial
    · trivial
    · exact fun f _ _ => ⟨.inl rfl, .inl fun _ => rfl⟩
  have hdocumented : loggingRewards.toVerifiableServices.Documented :=
    ⟨sampleVerifiables_documented.fraudID_length, sampleVerifiables_documented.signs⟩
  exact ⟨node, hone, penalizedOnce_of_sound hdocumented sampleRewards_receiptID
    (FraudNode.Reached.start.run hsound hrun)⟩

/-- A block with the proof is formed, and the flow aborted, as it always is. -/
def proofFormed : List (FlowEvent Bytes) :=
  [.addToMemPool forgedProof.toCVerifiable, .startFlow (some sampleRewardState.ledger), .processMemPool proofCall [0],
    .abortFlow]

/-- The proof was marked in a flow that was aborted, and cannot be processed any more. -/
theorem aborted_proof_lost : ¬∀ node : FraudNode,
    FraudNode.Reached sampleRewards (fun _ _ => True) (fun _ _ => none) node →
      PenalizedOnce sampleRewards (fun _ _ => none) node := by
  intro hlaw
  have hleft : (FraudNode.run sampleRewards proofFormed { saved := fun _ _ => none }).map
      (fun node => (node.penalized, node.mMemPool)) = some ([], [forgedProof.markAsProcessed]) := by decide +kernel
  obtain ⟨node, hrun, hnode⟩ := Option.map_eq_some_iff.mp hleft
  have hunmarked : (turnPenalty sampleRewards (formationRun false)
      { sampleChain with loadLink := LinkStorage.loadLink fun _ _ => none } 0 forgedProof proofFlow).isSome = true := by
    decide +kernel
  obtain ⟨hash, hpenalty⟩ := Option.isSome_iff_exists.mp hunmarked
  have honce := hlaw node (FraudNode.Reached.start.run (fun _ _ _ => trivial) hrun)
  have hpool : forgedProof.markAsProcessed ∈ node.mMemPool := by
    rw [(Prod.mk.inj hnode).2]
    exact List.mem_singleton_self _
  have hlost := honce.pending (.inl hpool) (hpenalty :) (by rw [(Prod.mk.inj hnode).1]; exact List.not_mem_nil)
  have hmark := (turnPenalty_some_iff.mp hlost).1
  cases hmark

end Sample

end Gridnet
