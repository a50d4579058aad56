import Gridnet.FraudRuns

/-! Which verifiables a block that is formed takes, and what a bad one costs the others. `addToBlock` is lowered by the
first verifiable that is bad and never raised again, and `stepBack` goes back to the last snapshot, which no verifiable
makes. -/

namespace Gridnet

variable {Trie : Type}

section Formation

variable (S : RewardServices Trie) (chain : ChainView) (keyHeight : UInt64)

/-- What formation finds of a verifiable: nothing, if it does not verify, or the receipt of its processing and the state
that this leaves. -/
def verdict (v : PoolVerifiable) (flow : VerifiableFlow) : Except ProcessFault (Option (CReceipt × RewardState)) :=
  match verifyActuateAndArm S.toVerifiableServices chain flow.toRewardState.mInFlowLinks
      flow.block.toRewardedBlock v.copied flow.toRewardState.rewardValidatedUpToNow with
  | .error e => .error (.fault e)
  | .ok none => .ok none
  | .ok (some armed) =>
      (processVerifiable S chain keyHeight flow.block.toRewardedBlock armed
        (S.getReceiptIDForVerifiable v.toCVerifiable) flow.toRewardState).map some

/-- How a verifiable is to fare: a valid one gets into the block, with its receipt and its effects, any other leaves
everything as it was. -/
inductive Fares (v : PoolVerifiable) (flow flow' : VerifiableFlow) : Prop where
  | included {receipt : CReceipt} {st : RewardState} :
      verdict S chain keyHeight v flow = .ok (some (receipt, st)) → receipt.mResult = .valid →
      flow'.block = flow.block.addVerifiable v.toCVerifiable → flow'.receipts = flow.receipts ++ [receipt] →
      flow'.toRewardState = st → Fares v flow flow'
  | leftOut {found : Option (CReceipt × RewardState)} :
      verdict S chain keyHeight v flow = .ok found → (∀ outcome ∈ found, outcome.1.mResult ≠ .valid) →
      flow'.block = flow.block → flow'.receipts = flow.receipts →
      flow'.toRewardState.ledger = flow.toRewardState.ledger →
      flow'.toRewardState.mInFlowLinks = flow.toRewardState.mInFlowLinks →
      flow'.toRewardState.rewardValidatedUpToNow = flow.toRewardState.rewardValidatedUpToNow → Fares v flow flow'

section Runs

variable (mode : ProcessingMode) (running : ℕ → Bool)

/-- Every turn of a run goes on, and every verifiable of it that was not processed before fares as it should. -/
def EachFares : List PoolVerifiable → VerifiableFlow → Prop
  | [], _ => True
  | v :: vs, flow =>
      running vs.length = true → ∃ v' flow',
        verifiableTurn S mode chain keyHeight v flow = .ok (.proceed, v', flow') ∧
          (v.HotProperties.markedAsProcessed = false → Fares S chain keyHeight v flow flow') ∧ EachFares vs flow'

/-- A verifiable with its receipt, if it is found valid. -/
def foundValid (v : PoolVerifiable) (flow : VerifiableFlow) : List (CVerifiable × CReceipt) :=
  match verdict S chain keyHeight v flow with
  | .ok (some (receipt, _)) => if receipt.mResult = .valid then [(v.toCVerifiable, receipt)] else []
  | _ => []

/-- The verifiables that a run finds valid. -/
def validOnes : List PoolVerifiable → VerifiableFlow → List (CVerifiable × CReceipt)
  | [], _ => []
  | v :: vs, flow =>
      if running vs.length then
        match verifiableTurn S mode chain keyHeight v flow with
        | .ok (.proceed, _, flow') =>
            (if v.HotProperties.markedAsProcessed then [] else foundValid S chain keyHeight v flow) ++
              validOnes vs flow'
        | _ => []
      else []

/-- What `processVerifiables` is for when a block is formed: it returns `true`, with exactly the valid verifiables in
the block, in order, and their receipts in the list, and none of the others changed anything. -/
structure FormsBlock (vs : List PoolVerifiable) (flow : VerifiableFlow) : Prop where
  each : EachFares S chain keyHeight mode running vs { flow with addToBlock := mode.addToBlock }
  call : ∃ vs' flow', processVerifiables S mode chain keyHeight running vs flow = .ok (true, vs', flow') ∧
    flow'.block =
      { flow.block with
        verifiables := flow.block.verifiables ++ (validOnes S chain keyHeight mode running vs
          { flow with addToBlock := mode.addToBlock }).map Prod.fst } ∧
    flow'.receipts = flow.receipts ++ (validOnes S chain keyHeight mode running vs
      { flow with addToBlock := mode.addToBlock }).map Prod.snd

/-- The runs that bad verifiables do not spoil: everything in them is of a type that the block may have, nothing valid
follows something bad, and what was processed in vain finds the domains of the last snapshot. -/
def Unspoiled : (barred : Bool) → List PoolVerifiable → VerifiableFlow → Prop
  | _, [], _ => True
  | barred, v :: vs, flow =>
      running vs.length = true →
        if v.HotProperties.markedAsProcessed then Unspoiled barred vs flow
        else legalVerifiable flow.block v.mVerifiableType = true ∧
          match verdict S chain keyHeight v flow with
          | .error _ => False
          | .ok none => Unspoiled true vs flow
          | .ok (some (receipt, st)) =>
              if receipt.mResult = .valid then
                barred = false ∧ Unspoiled false vs
                  { flow with
                    block := flow.block.addVerifiable v.toCVerifiable
                    receipts := flow.receipts ++ [receipt]
                    toRewardState := st }
              else
                flow.older.getLast? = some flow.toRewardState.ledger ∧ Unspoiled true vs
                  { flow with
                    older := flow.older.dropLast
                    toRewardState := { st with ledger := flow.toRewardState.ledger } }

end Runs

end Formation

/-! ### Turns -/

section Turns

variable {S : RewardServices Trie} {chain : ChainView} {keyHeight : UInt64} {phantomMode : Bool}
  {v : PoolVerifiable} {flow : VerifiableFlow} {receipt : CReceipt} {st : RewardState}

/-- What was processed in vain left the links and the reward alone. -/
theorem verdict_invalid (hverdict : verdict S chain keyHeight v flow = .ok (some (receipt, st)))
    (hinvalid : receipt.mResult ≠ .valid) : flow.toRewardState.OnlyPays st := by
  unfold verdict at hverdict
  split at hverdict
  case h_1 => cases hverdict
  case h_2 => cases hverdict
  case h_3 armed haccepts =>
    cases hprocess : processVerifiable S chain keyHeight flow.block.toRewardedBlock armed
        (S.getReceiptIDForVerifiable v.toCVerifiable) flow.toRewardState with
    | error e =>
        rw [hprocess] at hverdict
        cases hverdict
    | ok outcome =>
    rw [hprocess] at hverdict
    obtain rfl : outcome = (receipt, st) := Option.some.inj (Except.ok.inj hverdict)
    by_cases htype : armed.mVerifiableType = .proofOfFraud
    · rcases processVerifiable_fraud htype hprocess with ⟨-, rfl⟩ | ⟨hvalid, -⟩
      · exact .refl _
      · exact absurd hvalid hinvalid
    · exact processVerifiable_onlyPays htype hprocess

/-- What becomes of the flow, by what was found of a verifiable. -/
def VerifiableFlow.settle (flow : VerifiableFlow) (v : CVerifiable) :
    Option (CReceipt × RewardState) → Except ProcessFault VerifiableFlow
  | none => .ok { flow with addToBlock := false }
  | some (receipt, st) =>
      if receipt.mResult = .valid then
        .ok { flow with
          block := if flow.addToBlock then flow.block.addVerifiable v else flow.block
          receipts := flow.receipts ++ [receipt]
          toRewardState := st }
      else
        match flow.older.getLast? with
        | none => .error (.fault .assertion)
        | some ledger => .ok
            { flow with
              older := flow.older.dropLast
              toRewardState := { st with ledger }
              addToBlock := false }

/-- A turn goes on with the flow that is settled, whatever marks it leaves on the verifiable. -/
theorem verifiableTurn_settles (hunmarked : v.HotProperties.markedAsProcessed = false)
    (hlegal : legalVerifiable flow.block v.mVerifiableType = true) :
    (verifiableTurn S (formationRun phantomMode) chain keyHeight v flow).map (fun done => (done.1, done.2.2)) =
      (verdict S chain keyHeight v flow >>= flow.settle v.toCVerifiable).map (Prod.mk .proceed) := by
  have hended : ∀ (v' : PoolVerifiable) (flow' : VerifiableFlow), flow'.addToBlock = false →
      (endOfTurn (formationRun phantomMode) v' flow').2 = flow' := by
    intro v' flow' hbarred
    simp [endOfTurn, hbarred]
  have hreceipt : blockReceiptForVerifiable S (formationRun phantomMode) flow.block v.toCVerifiable = some {} := rfl
  have hreceiptID : receiptIDForVerifiable S (formationRun phantomMode) {} v.toCVerifiable =
    S.getReceiptIDForVerifiable v.toCVerifiable := rfl
  unfold verifiableTurn judgeVerifiable verdict
  rw [if_neg (by simp [hunmarked]), if_neg (by simp [hlegal])]
  cases verifyActuateAndArm S.toVerifiableServices chain flow.toRewardState.mInFlowLinks
      flow.block.toRewardedBlock v.copied flow.toRewardState.rewardValidatedUpToNow with
  | error e => rfl
  | ok accepted =>
      cases accepted with
      | none =>
          show Except.ok (_, (endOfTurn _ v { flow with addToBlock := false }).2) = _
          rw [hended _ _ rfl]
          rfl
      | some armed =>
          dsimp only
          rw [hreceipt]
          dsimp only
          rw [hreceiptID]
          cases processVerifiable S chain keyHeight flow.block.toRewardedBlock armed
              (S.getReceiptIDForVerifiable v.toCVerifiable) flow.toRewardState with
          | error e => rfl
          | ok outcome =>
              obtain ⟨receipt, st⟩ := outcome
              dsimp only
              have hopen : ¬((formationRun phantomMode).verifyAgainstBlock = true ∧
                receipt.mResult ≠ ({} : CReceipt).mResult) := fun h => Bool.false_ne_true h.1
              show _ = (flow.settle v.toCVerifiable (some (receipt, st))).map (Prod.mk VerifiableTurn.proceed)
              by_cases hvalid : receipt.mResult = .valid
              · rw [afterProcessing_valid hvalid, if_neg hopen, VerifiableFlow.settle, if_pos hvalid]
                show Except.ok (_, (endOfTurn _ v _).2) = _
                rw [endOfTurn_flow]
                rfl
              · rw [afterProcessing_invalid hvalid, if_neg hopen, VerifiableFlow.settle, if_neg hvalid]
                unfold VerifiableFlow.stepBack
                cases flow.older.getLast? with
                | none => rfl
                | some ledger =>
                    show Except.ok (_, (endOfTurn _ _ _).2) = _
                    rw [hended _ _ rfl]
                    rfl

theorem verifiableTurn_marked {mode : ProcessingMode} (hmarked : v.HotProperties.markedAsProcessed = true) :
    verifiableTurn S mode chain keyHeight v flow = .ok (.proceed, v, flow) := by
  rw [verifiableTurn, if_pos hmarked]

theorem verifiableTurn_illegal {mode : ProcessingMode} (hunmarked : v.HotProperties.markedAsProcessed = false)
    (hillegal : legalVerifiable flow.block v.mVerifiableType = false) :
    verifiableTurn S mode chain keyHeight v flow = .ok (.reject, v, flow) := by
  rw [verifiableTurn, if_neg (by simp [hunmarked]), if_pos hillegal]

/-- What a turn that goes on leaves, for a verifiable that is judged. -/
theorem verifiableTurn_proceeds_iff (hunmarked : v.HotProperties.markedAsProcessed = false)
    (hlegal : legalVerifiable flow.block v.mVerifiableType = true) {flow' : VerifiableFlow} :
    (∃ v', verifiableTurn S (formationRun phantomMode) chain keyHeight v flow = .ok (.proceed, v', flow')) ↔
      (verdict S chain keyHeight v flow >>= flow.settle v.toCVerifiable) = .ok flow' := by
  have hsettles : (verifiableTurn S (formationRun phantomMode) chain keyHeight v flow).map _ = _ :=
    verifiableTurn_settles hunmarked hlegal
  constructor
  · rintro ⟨v', hturn⟩
    rw [hturn] at hsettles
    cases hsettled : verdict S chain keyHeight v flow >>= flow.settle v.toCVerifiable with
    | error e =>
        rw [hsettled] at hsettles
        cases hsettles
    | ok settled =>
        rw [hsettled] at hsettles
        cases hsettles
        rfl
  · intro hsettled
    rw [hsettled] at hsettles
    cases hturn : verifiableTurn S (formationRun phantomMode) chain keyHeight v flow with
    | error e =>
        rw [hturn] at hsettles
        cases hsettles
    | ok done =>
        obtain ⟨turn, v', flow''⟩ := done
        rw [hturn] at hsettles
        cases hsettles
        exact ⟨v', rfl⟩

/-! ### How a verifiable fares -/

theorem addVerifiable_ne (block : ReceiptedBlock) (v : CVerifiable) : block ≠ block.addVerifiable v := by
  intro hsame
  have hlength := congrArg (fun block : ReceiptedBlock => block.verifiables.length) hsame
  simp [ReceiptedBlock.addVerifiable] at hlength

theorem fares_refused (hverdict : verdict S chain keyHeight v flow = .ok none) :
    Fares S chain keyHeight v flow { flow with addToBlock := false } :=
  .leftOut hverdict (by simp) rfl rfl rfl rfl rfl

/-- Once a verifiable was bad, the valid ones stay out, with their receipts and effects kept. -/
theorem fares_valid_iff (hverdict : verdict S chain keyHeight v flow = .ok (some (receipt, st)))
    (hvalid : receipt.mResult = .valid) :
    Fares S chain keyHeight v flow
        { flow with
          block := if flow.addToBlock then flow.block.addVerifiable v.toCVerifiable else flow.block
          receipts := flow.receipts ++ [receipt]
          toRewardState := st } ↔
      flow.addToBlock = true := by
  constructor
  · intro hfares
    cases hfares with
    | included _ _ hblock =>
        by_contra hbarred
        exact addVerifiable_ne _ _ ((if_neg hbarred).symm.trans hblock)
    | leftOut hfound hbad =>
        rw [hverdict] at hfound
        cases hfound
        exact absurd hvalid (hbad _ rfl)
  · intro hopen
    exact .included hverdict hvalid (if_pos hopen) rfl rfl

/-- What was processed in vain leaves its effects on the domains, but for those since the last snapshot. -/
theorem fares_invalid_iff {older : List Ledger} {ledger : Ledger}
    (hverdict : verdict S chain keyHeight v flow = .ok (some (receipt, st))) (hinvalid : receipt.mResult ≠ .valid) :
    Fares S chain keyHeight v flow
        { flow with older, toRewardState := { st with ledger }, addToBlock := false } ↔
      ledger = flow.toRewardState.ledger := by
  constructor
  · intro hfares
    cases hfares with
    | included hfound hvalid =>
        rw [hverdict] at hfound
        cases hfound
        exact absurd hvalid hinvalid
    | leftOut _ _ _ _ hledger => exact hledger
  · intro hledger
    have hpays := verdict_invalid hverdict hinvalid
    refine .leftOut hverdict ?_ rfl rfl hledger hpays.links hpays.reward
    rintro outcome ⟨⟩
    exact hinvalid

/-- What a verifiable adds to the block and to the receipts. -/
theorem Fares.added {flow' : VerifiableFlow} (hfares : Fares S chain keyHeight v flow flow') :
    flow'.block =
        { flow.block with
          verifiables := flow.block.verifiables ++ (foundValid S chain keyHeight v flow).map Prod.fst } ∧
      flow'.receipts = flow.receipts ++ (foundValid S chain keyHeight v flow).map Prod.snd := by
  cases hfares with
  | @included receipt st hverdict hvalid hblock hreceipts =>
      have hfound : foundValid S chain keyHeight v flow = [(v.toCVerifiable, receipt)] := by
        rw [foundValid, hverdict]
        exact if_pos hvalid
      rw [hfound]
      exact ⟨hblock, hreceipts⟩
  | @leftOut found hverdict hbad hblock hreceipts =>
      have hfound : foundValid S chain keyHeight v flow = [] := by
        rw [foundValid, hverdict]
        cases found with
        | none => rfl
        | some outcome => exact if_neg (hbad outcome rfl)
      simp [hfound, hblock, hreceipts]

/-! ### Runs -/

variable {running : ℕ → Bool} {vs : List PoolVerifiable}

/-- The first turn of a run for a verifiable that is judged. -/
theorem eachFares_cons_iff (hrunning : running vs.length = true)
    (hunmarked : v.HotProperties.markedAsProcessed = false)
    (hlegal : legalVerifiable flow.block v.mVerifiableType = true) :
    EachFares S chain keyHeight (formationRun phantomMode) running (v :: vs) flow ↔
      ∃ flow', (verdict S chain keyHeight v flow >>= flow.settle v.toCVerifiable) = .ok flow' ∧
        Fares S chain keyHeight v flow flow' ∧
        EachFares S chain keyHeight (formationRun phantomMode) running vs flow' := by
  constructor
  · intro heach
    obtain ⟨v', flow', hturn, hfares, hrest⟩ := heach hrunning
    exact ⟨flow', (verifiableTurn_proceeds_iff hunmarked hlegal).mp ⟨v', hturn⟩, hfares hunmarked, hrest⟩
  · rintro ⟨flow', hsettled, hfares, hrest⟩ -
    obtain ⟨v', hturn⟩ : ∃ v', verifiableTurn S (formationRun phantomMode) chain keyHeight v flow =
      .ok (.proceed, v', flow') := (verifiableTurn_proceeds_iff hunmarked hlegal).mpr hsettled
    exact ⟨v', flow', hturn, fun _ => hfares, hrest⟩

/-- The step of a run, over what is found of a verifiable. -/
theorem eachFares_judged_iff {barred : Bool} (hrunning : running vs.length = true)
    (hunmarked : v.HotProperties.markedAsProcessed = false)
    (hlegal : legalVerifiable flow.block v.mVerifiableType = true)
    (ih : ∀ (barred : Bool) (flow : VerifiableFlow),
      EachFares S chain keyHeight (formationRun phantomMode) running vs { flow with addToBlock := !barred } ↔
        Unspoiled S chain keyHeight running barred vs flow) :
    EachFares S chain keyHeight (formationRun phantomMode) running (v :: vs) { flow with addToBlock := !barred } ↔
      Unspoiled S chain keyHeight running barred (v :: vs) flow := by
  have hstep : EachFares S chain keyHeight (formationRun phantomMode) running (v :: vs)
      { flow with addToBlock := !barred } ↔ _ := eachFares_cons_iff hrunning hunmarked hlegal
  have hsame : verdict S chain keyHeight v { flow with addToBlock := !barred } = verdict S chain keyHeight v flow := rfl
  rw [hstep, Unspoiled, hsame]
  simp only [hrunning, hunmarked, hlegal, forall_const, true_and, Bool.false_eq_true, if_false]
  cases hverdict : verdict S chain keyHeight v flow with
  | error e =>
      refine iff_of_false ?_ id
      rintro ⟨flow', hsettled, -⟩
      cases hsettled
  | ok found =>
      cases found with
      | none =>
          rw [← ih]
          constructor
          · rintro ⟨flow', hsettled, -, hrest⟩
            cases hsettled
            exact hrest
          · intro hrest
            exact ⟨_, rfl, fares_refused hverdict, hrest⟩
      | some outcome =>
          obtain ⟨receipt, st⟩ := outcome
          show (∃ flow', VerifiableFlow.settle _ _ (some (receipt, st)) = .ok flow' ∧ _) ↔ _
          by_cases hvalid : receipt.mResult = .valid
          · have hfares : Fares S chain keyHeight v { flow with addToBlock := !barred } _ ↔ _ :=
              fares_valid_iff hverdict hvalid
            rw [VerifiableFlow.settle, if_pos hvalid]
            simp only [Except.ok.injEq, exists_eq_left', hvalid, if_true]
            refine (and_congr_left' hfares).trans ?_
            cases barred with
            | true => simp
            | false => exact and_congr (iff_of_true rfl rfl) (ih false
                { flow with
                  block := flow.block.addVerifiable v.toCVerifiable
                  receipts := flow.receipts ++ [receipt]
                  toRewardState := st })
          · rw [VerifiableFlow.settle, if_neg hvalid]
            dsimp only
            rw [if_neg hvalid]
            cases flow.older.getLast? with
            | none => simp
            | some ledger =>
                have hfares : Fares S chain keyHeight v { flow with addToBlock := !barred }
                    { flow with
                      older := flow.older.dropLast
                      toRewardState := { st with ledger }
                      addToBlock := false } ↔ _ := fares_invalid_iff hverdict hvalid
                simp only [Except.ok.injEq, exists_eq_left', hfares, Option.some.injEq]
                refine and_congr_right fun hledger => ?_
                subst hledger
                exact ih true
                  { flow with
                    older := flow.older.dropLast
                    toRewardState := { st with ledger := flow.toRewardState.ledger } }

/-- Every verifiable fares as it should in just the runs that bad ones do not spoil. -/
theorem eachFares_iff (barred : Bool) (flow : VerifiableFlow) :
    EachFares S chain keyHeight (formationRun phantomMode) running vs { flow with addToBlock := !barred } ↔
      Unspoiled S chain keyHeight running barred vs flow := by
  induction vs generalizing barred flow with
  | nil => exact Iff.rfl
  | cons v vs ih =>
      by_cases hrunning : running vs.length = true
      case neg => exact iff_of_true (fun h => absurd h hrunning) (fun h => absurd h hrunning)
      case pos =>
        cases hmarked : v.HotProperties.markedAsProcessed with
        | true =>
            simp only [EachFares, Unspoiled, hrunning, forall_const, verifiableTurn_marked hmarked, hmarked, if_true]
            rw [← ih]
            simp
        | false =>
            cases hlegal : legalVerifiable flow.block v.mVerifiableType with
            | true => exact eachFares_judged_iff hrunning hmarked hlegal ih
            | false =>
                refine iff_of_false ?_ ?_
                · intro heach
                  obtain ⟨v', flow', hturn, -⟩ := heach hrunning
                  have hreject : verifiableTurn S (formationRun phantomMode) chain keyHeight v
                      { flow with addToBlock := !barred } = .ok (.reject, v, _) := verifiableTurn_illegal hmarked hlegal
                  rw [hreject] at hturn
                  cases hturn
                · intro hunspoiled
                  simp [Unspoiled, hrunning, hmarked, hlegal] at hunspoiled

/-- A run in which every verifiable fares as it should returns `true`, with all that is valid in the block. -/
theorem EachFares.loop {mode : ProcessingMode} (heach : EachFares S chain keyHeight mode running vs flow) :
    ∃ vs' flow', verifiableLoop S mode chain keyHeight running vs flow = .ok (true, vs', flow') ∧
      flow'.block =
        { flow.block with
          verifiables := flow.block.verifiables ++ (validOnes S chain keyHeight mode running vs flow).map Prod.fst } ∧
      flow'.receipts = flow.receipts ++ (validOnes S chain keyHeight mode running vs flow).map Prod.snd := by
  induction vs generalizing flow with
  | nil => exact ⟨[], flow, rfl, by simp [validOnes], by simp [validOnes]⟩
  | cons v vs ih =>
      rw [verifiableLoop, validOnes]
      by_cases hrunning : running vs.length = true
      · obtain ⟨v', flow', hturn, hfares, hrest⟩ := heach hrunning
        obtain ⟨vs', flow'', hloop, hblock, hreceipts⟩ := ih hrest
        rw [if_pos hrunning, if_pos hrunning, hturn]
        dsimp only
        rw [hloop]
        refine ⟨v' :: vs', flow'', rfl, ?_⟩
        rw [hblock, hreceipts]
        cases hmarked : v.HotProperties.markedAsProcessed with
        | true =>
            rw [verifiableTurn_marked hmarked] at hturn
            cases hturn
            simp
        | false =>
            obtain ⟨hadded, hreceipt⟩ := (hfares hmarked).added
            rw [hadded, hreceipt]
            simp
      · rw [if_neg hrunning, if_neg hrunning]
        exact ⟨v :: vs, flow, rfl, by simp, by simp⟩

/-- The law of a run. -/
theorem formsBlock_iff_unspoiled :
    FormsBlock S chain keyHeight (formationRun phantomMode) running vs flow ↔
      Unspoiled S chain keyHeight running false vs flow := by
  have heach : EachFares S chain keyHeight (formationRun phantomMode) running vs { flow with addToBlock := !false } ↔
      _ := eachFares_iff false flow
  rw [← heach]
  constructor
  · intro hforms
    exact hforms.each
  · intro heach
    exact ⟨heach, heach.loop⟩

/-- A valid verifiable behind one that is refused spoils a run. -/
theorem not_unspoiled_of_refused {w : PoolVerifiable} (hrunning : running = fun _ => true)
    (hunmarked : v.HotProperties.markedAsProcessed = false ∧ w.HotProperties.markedAsProcessed = false)
    (hrefused : verdict S chain keyHeight v flow = .ok none)
    (hverdict : verdict S chain keyHeight w flow = .ok (some (receipt, st))) (hvalid : receipt.mResult = .valid) :
    ¬Unspoiled S chain keyHeight running false [v, w] flow := by
  subst hrunning
  simp [Unspoiled, hunmarked, hrefused, hverdict, hvalid]

/-- A block is formed of exactly what is valid, with the rest without any effect, in just the runs that bad verifiables
do not spoil. -/
theorem processVerifiables_formsBlock_iff (S : RewardServices Trie) (chain : ChainView) (keyHeight : UInt64)
    (phantomMode : Bool) (running : ℕ → Bool) (vs : List PoolVerifiable) (flow : VerifiableFlow) :
    FormsBlock S chain keyHeight (formationRun phantomMode) running vs flow ↔
      Unspoiled S chain keyHeight running false vs flow :=
  formsBlock_iff_unspoiled

end Turns

/-! ### A proof behind a verifiable that is refused -/

/-- A verifiable that no verifier accepts. -/
def refusedVerifiable : PoolVerifiable := { toCVerifiable := { mVerifiableType := .uncleBlock } }

theorem forgedProof_verdict : ∃ receipt st,
    verdict sampleRewards sampleChain 0 forgedProof proofFlow = .ok (some (receipt, st)) ∧
      receipt.mResult = .valid := by
  have hvalid : (verdict sampleRewards sampleChain 0 forgedProof proofFlow).toOption.map
      (fun processed => processed.map fun receipt => receipt.1.mResult) = some (some .valid) := by decide +kernel
  obtain ⟨processed, hverdict, hresult⟩ := exists_ok_of_toOption _ _ hvalid
  obtain ⟨outcome, rfl, hreceipt⟩ := Option.map_eq_some_iff.mp hresult
  exact ⟨outcome.1, outcome.2, hverdict, hreceipt⟩

/-- The proof of fraud is processed, and stays out of the block. -/
theorem formsBlock_fails_refused :
    ¬FormsBlock sampleRewards sampleChain 0 (formationRun false) (fun _ => true) [refusedVerifiable, forgedProof]
      proofFlow := by
  obtain ⟨receipt, st, hverdict, hvalid⟩ := forgedProof_verdict
  rw [formsBlock_iff_unspoiled]
  exact not_unspoiled_of_refused rfl ⟨rfl, rfl⟩ rfl hverdict hvalid

end Gridnet
