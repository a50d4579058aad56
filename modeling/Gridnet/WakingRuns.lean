import Gridnet.Waking

/-! Deferred transactions over histories of calls. A loop picks nothing that waits for a trigger and nothing twice, so
that no trigger clears the mark of what a block already has; and whether every turn wakes rightly is told turn by
turn. -/

namespace Gridnet

section Loops

variable {S : NodeServices} {DB : Type} {T : LedgerTrie DB}

/-- A turn as the loops take it: on a transaction that is unprocessed and does not wait for a trigger. -/
structure TakenUp (S : NodeServices) (T : LedgerTrie DB) (turn : PendingTurn DB) : Prop where
  ongoing : FormedBlock.Ongoing T turn.before.block
  unprocessed : ∀ tx, turn.before.mMemPool[turn.input.pointer]? = some tx → tx.HotProperties.markedAsProcessed = false
  untriggered : ∀ tx, turn.before.mMemPool[turn.input.pointer]? = some tx → tx.HotProperties.triggerRequired = false
  taken : ∃ o, takeUp S (managerCalls S T) turn.before turn.input = .ok (o, turn.after)

/-- What a loop needs of the transactions that it has still to go over, and keeps. -/
structure Picking (T : LedgerTrie DB) (picks : List Pick) (s : PendingState (TransactionManager DB)) : Prop where
  ongoing : FormedBlock.Ongoing T s.block
  distinct : (picks.map Pick.pointer).Nodup
  untriggered : ∀ pick ∈ picks, ∀ tx, s.mMemPool[pick.pointer]? = some tx → tx.HotProperties.triggerRequired = false

variable {pick : Pick} {picks : List Pick} {s s' : PendingState (TransactionManager DB)} {o : Option TurnEnd}

theorem Picking.tail (hpicking : Picking T (pick :: picks) s) : Picking T picks s where
  ongoing := hpicking.ongoing
  distinct := (List.nodup_cons.mp hpicking.distinct).2
  untriggered := fun pick' hmem => hpicking.untriggered pick' (List.mem_cons_of_mem _ hmem)

theorem takeUp_ongoing (hT : T.Documented) (hongoing : FormedBlock.Ongoing T s.block)
    (hturn : takeUp S (managerCalls S T) s pick = .ok (o, s')) : FormedBlock.Ongoing T s'.block := by
  cases htx : s.mMemPool[pick.pointer]? with
  | none => rwa [takeUp_none hturn htx]
  | some tx =>
      obtain ⟨tx', -, hongoing', -⟩ := takeUp_effect hT hongoing hturn htx
      exact hongoing'

/-- A turn of a loop: the others are not made to wait by it. -/
theorem Picking.turn (hT : T.Documented) (hpicking : Picking T (pick :: picks) s)
    (hover : ((s.mMemPool[pick.pointer]?).any fun tx => tx.HotProperties.markedAsProcessed) = false)
    (hturn : takeUp S (managerCalls S T) s pick = .ok (o, s')) :
    TakenUp S T ⟨s, pick, s'⟩ ∧ Picking T picks s' := by
  obtain ⟨hfresh, hdistinct⟩ := List.nodup_cons.mp hpicking.distinct
  refine ⟨⟨hpicking.ongoing, ?_, hpicking.untriggered pick List.mem_cons_self, o, hturn⟩,
    ⟨takeUp_ongoing hT hpicking.ongoing hturn, hdistinct, ?_⟩⟩
  · intro tx htx
    have hown : s.mMemPool[pick.pointer]? = some tx := htx
    rw [hown] at hover
    exact hover
  · intro pick' hmem tx htx
    have hne : pick'.pointer ≠ pick.pointer := fun hsame =>
      hfresh (hsame ▸ List.mem_map_of_mem hmem)
    rw [takeUp_others hturn hne] at htx
    obtain ⟨other, hother, rfl⟩ := Option.map_eq_some_iff.mp htx
    have hfree := hpicking.untriggered pick' (List.mem_cons_of_mem _ hmem) other hother
    rwa [untriggerAll_of_untriggered _ hfree]

theorem pendingLoop_takenUp (hT : T.Documented) (running : ℕ → Bool) (hpicking : Picking T picks s) :
    (∀ turn ∈ (Rounds.loop (pendingLoop S (managerCalls S T) running) picks s).1, TakenUp S T turn) ∧
      ∀ o s', (Rounds.loop (pendingLoop S (managerCalls S T) running) picks s).2 = .ok (o, s') →
        ∃ left, Picking T left s' :=
  Rounds.loop_rule (fun _ _ _ hpicking => hpicking.tail)
    (fun _ _ _ _ _ hpicking hover hturn => hpicking.turn hT hover hturn) hpicking

/-- What the pool hands out can be gone over. -/
theorem picking_of_sorted (order : PoolOrder) (q : ℕ → Bool) (again markAsProcessed : Bool)
    (hongoing : FormedBlock.Ongoing T s.block) :
    Picking T (((order.sorted s.mMemPool (unprocessedPointers s.mMemPool)).filter q).map
      fun pointer => { pointer, again, markAsProcessed }) s where
  ongoing := hongoing
  distinct := by
    rw [List.map_map]
    have hpointers : (Pick.pointer ∘ fun pointer => { pointer, again, markAsProcessed }) = id := rfl
    rw [hpointers, List.map_id]
    exact ((order.perm _ _).nodup_iff.mpr (unprocessedPointers_nodup _)).filter q
  untriggered := by
    intro pick hmem tx htx
    obtain ⟨i, hi, rfl⟩ := List.mem_map.mp hmem
    obtain ⟨other, hother, heligible⟩ :=
      mem_unprocessedPointers.mp ((order.perm _ _).mem_iff.mp (List.mem_filter.mp hi).1)
    obtain rfl := Option.some.inj (hother.symm.trans htx)
    exact heligible.untriggered rfl

end Loops

/-! ### Calls -/

section Calls

variable {S : NodeServices} {DB : Type} {T : LedgerTrie DB}

/-- The pool only grows between turns, at its end. -/
def Later {M : Type} (s s' : PendingState M) : Prop := ∃ arrivals, s'.mMemPool = s.mMemPool ++ arrivals

theorem Later.refl {M : Type} (s : PendingState M) : Later s s := ⟨[], (List.append_nil _).symm⟩

theorem Later.trans {M : Type} (s₁ s₂ s₃ : PendingState M) (hfirst : Later s₁ s₂) (hsecond : Later s₂ s₃) :
    Later s₁ s₃ := by
  obtain ⟨arrivals, hfirst⟩ := hfirst
  obtain ⟨arrivals', hsecond⟩ := hsecond
  exact ⟨arrivals ++ arrivals', by rw [hsecond, hfirst, List.append_assoc]⟩

namespace FormationCall

variable {call : FormationCall T} {mMemPool : List PoolTransaction}

theorem begun_ongoing (call : FormationCall T) (mMemPool : List PoolTransaction) :
    FormedBlock.Ongoing T (call.begun mMemPool).block :=
  ⟨call.notCheckpointed, ⟨call.start.manager.mInFlowInterDBs.map T.domains, [], call.start.manager.ledger T⟩,
    call.ready, rfl, rfl, rfl⟩

/-- The turns of a call are those of its first loop, or of both. -/
theorem processTransactions_cases (S : NodeServices) (call : FormationCall T) (mMemPool : List PoolTransaction) :
    ((call.processTransactions S mMemPool).1 = [] ∧
      ∀ answer s, (call.processTransactions S mMemPool).2 = .ok (answer, s) → s.mMemPool = mMemPool) ∨
    ((call.processTransactions S mMemPool).1 = (call.firstLoop S mMemPool).1 ∧
      ∀ answer s, (call.processTransactions S mMemPool).2 = .ok (answer, s) →
        ∃ o, (call.firstLoop S mMemPool).2 = .ok (o, s)) ∨
    ∃ s₁, (call.firstLoop S mMemPool).2 = .ok (none, s₁) ∧
      (call.processTransactions S mMemPool).1 = (call.firstLoop S mMemPool).1 ++ (call.secondLoop S s₁).1 ∧
      ∀ answer s, (call.processTransactions S mMemPool).2 = .ok (answer, s) →
        ∃ o, (call.secondLoop S s₁).2 = .ok (o, s) := by
  unfold processTransactions
  by_cases hnone : call.batch mMemPool = []
  · rw [if_pos hnone]
    refine .inl ⟨rfl, fun answer s hend => ?_⟩
    cases hend
    rfl
  · rw [if_neg hnone]
    dsimp only
    cases hfirst : (call.firstLoop S mMemPool).2 with
    | error e => exact .inr (.inl ⟨rfl, fun answer s hend => by cases hend⟩)
    | ok result =>
        obtain ⟨outcome, s₁⟩ := result
        rcases outcome with - | ending
        · dsimp only
          cases call.retries S s₁ with
          | false =>
              refine .inr (.inl ⟨rfl, fun answer s hend => ?_⟩)
              cases hend
              exact ⟨_, rfl⟩
          | true =>
              rw [if_pos rfl]
              refine .inr (.inr ⟨s₁, rfl, ?_⟩)
              cases (call.secondLoop S s₁).2 with
              | error e => exact ⟨rfl, fun answer s hend => by cases hend⟩
              | ok result =>
                  obtain ⟨o, s₂⟩ := result
                  refine ⟨rfl, fun answer s hend => ?_⟩
                  cases hend
                  exact ⟨o, rfl⟩
        · refine .inr (.inl ?_)
          cases ending
          all_goals
            refine ⟨rfl, fun answer s hend => ?_⟩
            cases hend
            exact ⟨_, rfl⟩

theorem firstLoop_takenUp (hT : T.Documented) (call : FormationCall T) (mMemPool : List PoolTransaction) :
    (∀ turn ∈ (call.firstLoop S mMemPool).1, TakenUp S T turn) ∧
      ∀ o s, (call.firstLoop S mMemPool).2 = .ok (o, s) → ∃ left, Picking T left s :=
  pendingLoop_takenUp hT call.running
    (picking_of_sorted call.order _ false call.markAsProcessed (call.begun_ongoing mMemPool))

theorem secondLoop_takenUp (hT : T.Documented) (call : FormationCall T) {s : PendingState (TransactionManager DB)}
    (hongoing : FormedBlock.Ongoing T s.block) : ∀ turn ∈ (call.secondLoop S s).1, TakenUp S T turn :=
  (pendingLoop_takenUp hT _ (picking_of_sorted call.order _ true call.markAsProcessed hongoing)).1

/-- Every turn of a call. -/
theorem processTransactions_takenUp (hT : T.Documented) (call : FormationCall T) (mMemPool : List PoolTransaction) :
    ∀ turn ∈ (call.processTransactions S mMemPool).1, TakenUp S T turn := by
  obtain ⟨hfirst, hend⟩ := firstLoop_takenUp (S := S) hT call mMemPool
  rcases processTransactions_cases S call mMemPool with ⟨hnone, -⟩ | ⟨hone, -⟩ | ⟨s₁, hmiddle, hboth, -⟩
  · rw [hnone]
    exact fun turn hmem => absurd hmem List.not_mem_nil
  · rw [hone]
    exact hfirst
  · rw [hboth]
    obtain ⟨left, hpicking⟩ := hend none s₁ hmiddle
    exact List.forall_mem_append.mpr ⟨hfirst, secondLoop_takenUp hT call hpicking.ongoing⟩

/-- The turns of a call follow each other, and the call leaves the pool as its last turn does. -/
theorem processTransactions_chained (S : NodeServices) (call : FormationCall T) (mMemPool : List PoolTransaction) :
    Rounds.Chained Later (call.begun mMemPool) (call.processTransactions S mMemPool).1 ∧
      ∀ answer s, (call.processTransactions S mMemPool).2 = .ok (answer, s) →
        s.mMemPool = (Rounds.endOf (call.begun mMemPool) (call.processTransactions S mMemPool).1).mMemPool := by
  obtain ⟨hchained, hendOf⟩ : Rounds.Chained Later (call.begun mMemPool) (call.firstLoop S mMemPool).1 ∧
      ∀ o s, (call.firstLoop S mMemPool).2 = .ok (o, s) →
        Rounds.endOf (call.begun mMemPool) (call.firstLoop S mMemPool).1 = s :=
    Rounds.chained_loop Later.refl _ _
  rcases processTransactions_cases S call mMemPool with ⟨hnone, hsame⟩ | ⟨hone, hsame⟩ | ⟨s₁, hmiddle, hboth, hsame⟩
  · rw [hnone]
    exact ⟨trivial, hsame⟩
  · rw [hone]
    refine ⟨hchained, fun answer s hend => ?_⟩
    obtain ⟨o, hfirst⟩ := hsame answer s hend
    rw [hendOf o s hfirst]
  · rw [hboth]
    obtain ⟨hchained₂, hendOf₂⟩ : Rounds.Chained Later s₁ (call.secondLoop S s₁).1 ∧
        ∀ o s, (call.secondLoop S s₁).2 = .ok (o, s) → Rounds.endOf s₁ (call.secondLoop S s₁).1 = s :=
      Rounds.chained_loop Later.refl _ _
    obtain rfl := hendOf none s₁ hmiddle
    refine ⟨hchained.append hchained₂, fun answer s hend => ?_⟩
    obtain ⟨o, hsecond⟩ := hsame answer s hend
    rw [Rounds.endOf_append, ← hendOf₂ o s hsecond]

end FormationCall

end Calls

/-! ### Histories -/

section Histories

variable {S : NodeServices} {DB : Type} {T : LedgerTrie DB}

/-- The turn adds to the block. -/
def AddsToBlock (turn : PendingTurn DB) : Prop :=
  turn.after.block.proposal.transactions ≠ turn.before.block.proposal.transactions

/-- What a call that marks has added to its block is not taken up later. -/
def NoSecondInclusion (turn later : PendingTurn DB) : Prop :=
  turn.input.markAsProcessed = true → AddsToBlock turn → later.input.pointer ≠ turn.input.pointer

/-- What the turn added to the block stays processed, and waits for nothing that would clear the mark. -/
def SettledIn (turn : PendingTurn DB) (s : PendingState (TransactionManager DB)) : Prop :=
  turn.input.markAsProcessed = true → AddsToBlock turn → ∃ tx, s.mMemPool[turn.input.pointer]? = some tx ∧
    tx.HotProperties.markedAsProcessed = true ∧ tx.HotProperties.triggerRequired = false

variable {turn later : PendingTurn DB} {s s' : PendingState (TransactionManager DB)}

theorem SettledIn.grow (hsettled : SettledIn turn s) (hlater : Later s s') : SettledIn turn s' := by
  intro hmark hadds
  obtain ⟨tx, htx, hmarks⟩ := hsettled hmark hadds
  obtain ⟨arrivals, hpool⟩ := hlater
  obtain ⟨hlt, -⟩ := List.getElem?_eq_some_iff.mp htx
  exact ⟨tx, by rw [hpool, List.getElem?_append_left hlt, htx], hmarks⟩

/-- What a turn adds to the block, it settles. -/
theorem TakenUp.settledIn (hT : T.Documented) (htaken : TakenUp S T turn) : SettledIn turn turn.after := by
  intro hmark hadds
  obtain ⟨o, hturn⟩ := htaken.taken
  cases htx : turn.before.mMemPool[turn.input.pointer]? with
  | none =>
      rw [AddsToBlock, takeUp_none hturn htx] at hadds
      exact absurd rfl hadds
  | some tx =>
      obtain ⟨tx', heffect, -, hown, -⟩ := takeUp_effect hT htaken.ongoing hturn htx
      have hfree : tx'.HotProperties.triggerRequired = false := by
        by_contra hwaits
        by_cases hearly : Early S (turn.before.block.manager.ledger T) tx
        · exact hadds (heffect.early hearly).2
        · have hwaited := heffect.waits hearly (Bool.not_eq_false _ ▸ hwaits)
          exact Bool.false_ne_true ((htaken.untriggered tx htx).symm.trans hwaited)
      refine ⟨_, hown, heffect.processed hadds hmark, ?_⟩
      calc
        (tx'.ownMarks (firedBy turn.before turn.after)).HotProperties.triggerRequired =
            (untriggerAll (firedBy turn.before turn.after) tx').HotProperties.triggerRequired := rfl
        _ = tx'.HotProperties.triggerRequired := by rw [untriggerAll_of_untriggered _ hfree]
        _ = false := hfree

/-- A later turn is on another transaction, and its triggers pass what is settled by. -/
theorem TakenUp.keeps (htaken : TakenUp S T later) (hsettled : SettledIn turn later.before) :
    NoSecondInclusion turn later ∧ SettledIn turn later.after := by
  have hother : NoSecondInclusion turn later := by
    intro hmark hadds hsame
    obtain ⟨tx, htx, hprocessed, -⟩ := hsettled hmark hadds
    rw [← hsame] at htx
    exact Bool.false_ne_true ((htaken.unprocessed tx htx).symm.trans hprocessed)
  refine ⟨hother, fun hmark hadds => ?_⟩
  obtain ⟨tx, htx, hprocessed, hfree⟩ := hsettled hmark hadds
  obtain ⟨o, hturn⟩ := htaken.taken
  refine ⟨tx, ?_, hprocessed, hfree⟩
  rw [takeUp_others hturn (hother hmark hadds).symm, htx, Option.map_some, untriggerAll_of_untriggered _ hfree]

theorem turnsOfHistory_takenUp (hT : T.Documented) (history : List (FormationCall T))
    (mMemPool : List PoolTransaction) : ∀ turn ∈ turnsOfHistory S mMemPool history, TakenUp S T turn := by
  induction history generalizing mMemPool with
  | nil => exact fun turn hmem => absurd hmem List.not_mem_nil
  | cons call history ih =>
      have hcall := FormationCall.processTransactions_takenUp (S := S) hT call (mMemPool ++ call.arrivals)
      rw [turnsOfHistory]
      cases (call.processTransactions S (mMemPool ++ call.arrivals)).2 with
      | error e => exact hcall
      | ok result => exact List.forall_mem_append.mpr ⟨hcall, ih result.2.mMemPool⟩

theorem turnsOfHistory_chained (S : NodeServices) (history : List (FormationCall T))
    {s : PendingState (TransactionManager DB)} {mMemPool : List PoolTransaction} (hpool : s.mMemPool = mMemPool) :
    Rounds.Chained Later s (turnsOfHistory S mMemPool history) := by
  induction history generalizing mMemPool s with
  | nil => trivial
  | cons call history ih =>
      obtain ⟨hchained, hend⟩ := FormationCall.processTransactions_chained S call (mMemPool ++ call.arrivals)
      have hbegun : Later s (call.begun (mMemPool ++ call.arrivals)) := ⟨call.arrivals, by rw [hpool]; rfl⟩
      refine Rounds.Chained.of_between Later.trans hbegun ?_
      rw [turnsOfHistory]
      cases hresult : (call.processTransactions S (mMemPool ++ call.arrivals)).2 with
      | error e => exact hchained
      | ok result =>
          obtain ⟨answer, s'⟩ := result
          exact hchained.append (ih (hend answer s' hresult).symm)

/-- No history takes up a second time what a block already has. -/
theorem noSecondInclusion_of_history (hT : T.Documented) (history : List (FormationCall T))
    (mMemPool : List PoolTransaction) : (turnsOfHistory S mMemPool history).Pairwise NoSecondInclusion := by
  have htaken := turnsOfHistory_takenUp (S := S) hT history mMemPool
  cases history with
  | nil => exact List.Pairwise.nil
  | cons call history =>
      have hchained : Rounds.Chained Later ⟨mMemPool, call.start⟩ (turnsOfHistory S mMemPool (call :: history)) :=
        turnsOfHistory_chained S (call :: history) rfl
      exact hchained.pairwise (fun _ _ _ hlater hsettled => hsettled.grow hlater)
        (fun turn hmem => (htaken turn hmem).settledIn hT) fun turn later hmem => (htaken later hmem).keeps

/-- Deferred transactions are woken, and not lost: in a history of calls that starts from the given pool, every turn
defers the early and wakes the due, and nothing is included twice. -/
structure DeferredWoken (S : NodeServices) (T : LedgerTrie DB) (mMemPool : List PoolTransaction)
    (history : List (FormationCall T)) : Prop where
  wakes : ∀ turn ∈ turnsOfHistory S mMemPool history, WakesRightly S T turn
  once : (turnsOfHistory S mMemPool history).Pairwise NoSecondInclusion

/-- Deferred transactions are woken and not lost exactly where in no turn the first loop of a call that marks meets an
early transaction, and the issuers tell who is due. -/
theorem deferredWoken_iff (hT : T.Documented) (mMemPool : List PoolTransaction) (history : List (FormationCall T)) :
    DeferredWoken S T mMemPool history ↔
      ∀ turn ∈ turnsOfHistory S mMemPool history, IssuersTellDue S T turn := by
  have hturns : ∀ turn ∈ turnsOfHistory S mMemPool history, (WakesRightly S T turn ↔ IssuersTellDue S T turn) := by
    intro turn hmem
    have htaken := turnsOfHistory_takenUp hT history mMemPool turn hmem
    obtain ⟨o, hturn⟩ := htaken.taken
    exact wakesRightly_iff hT htaken.ongoing hturn
  constructor
  · intro hwoken turn hmem
    exact (hturns turn hmem).mp (hwoken.wakes turn hmem)
  · intro htell
    exact ⟨fun turn hmem => (hturns turn hmem).mpr (htell turn hmem), noSecondInclusion_of_history hT history mMemPool⟩

end Histories

section Samples

/-- A call that marks what it processes and takes the pool as it is. -/
def sampleCall (arrivals : List PoolTransaction) : FormationCall sampleTrie where
  markAsProcessed := true
  running := fun _ => true
  order := { sorted := fun _ pointers => pointers, perm := fun _ _ => List.Perm.refl _ }
  isPhantomProcessed := fun _ => false
  arrivals
  start := { manager := sampleFlow, proposal := {} }
  notCheckpointed := rfl
  ready := sampleFlow_ready

/-- A second transaction that waits, of an owner who names the account. -/
def waitingTransaction : PoolTransaction :=
  { sampleTransaction 1 with
    mIssuer := sampleAddress 1, mNonce := 2, HotProperties := { triggerRequired := true } }

theorem deferredWoken_waiting :
    DeferredWoken sampleServices sampleTrie [waitingTransaction] [sampleCall [keyOnly 1 1 1]] := by
  refine (deferredWoken_iff sampleTrie_documented _ _).mpr fun turn hmem => ?_
  have htaken := turnsOfHistory_takenUp sampleTrie_documented _ _ turn hmem
  obtain ⟨o, hturn⟩ := htaken.taken
  have hturns : ∀ turn ∈ turnsOfHistory sampleServices [waitingTransaction] [sampleCall [keyOnly 1 1 1]],
      ∀ tx ∈ turn.before.mMemPool[turn.input.pointer]?,
        (∀ result ∈ (authenticate sampleServices (turn.before.block.manager.ledger sampleTrie) tx false).toOption,
          ¬result.2.mNonce.toNat + 1 < tx.mNonce.toNat) ∧
        ∀ a ∈ firedBy turn.before turn.after, ∀ j < turn.before.mMemPool.length, j ≠ turn.input.pointer →
          ∀ other ∈ turn.before.mMemPool[j]?, (other.mIssuer = a ↔
            IsDue sampleServices (turn.before.block.manager.ledger sampleTrie) a tx other) := by
    decide +kernel
  refine ⟨?_, ?_⟩
  · rintro - - tx htx - ⟨-, a, issuerSD, hauth, hearly⟩
    exact (hturns turn hmem tx htx).1 (a, issuerSD) (by rw [hauth]; rfl) hearly
  · intro tx a hcharges j other hj hother _
    have hfired := (charges_iff_firedBy sampleTrie_documented htaken.ongoing hturn hcharges.1).mp hcharges
    exact (hturns turn hmem tx hcharges.1).2 a (by rw [hfired]; exact List.mem_singleton_self a) j
      (List.getElem?_eq_some_iff.mp hother).1 hj other hother

/-- A transaction that gives its key and leaves its address out is deferred by one call. The next call charges its
account, and does not wake it. -/
theorem deferredWoken_fails :
    ¬DeferredWoken sampleServices sampleTrie [] [sampleCall [keyOnly 1 2 1], sampleCall [keyOnly 1 1 1]] := by
  intro hwoken
  obtain ⟨turn, hmem, hpointer, hfired, tx, htx, other, hother, hwaits, hvalid, hdue, hlost⟩ :
      ∃ turn ∈ turnsOfHistory sampleServices [] [sampleCall [keyOnly 1 2 1], sampleCall [keyOnly 1 1 1]],
        turn.input.pointer = 1 ∧ firedBy turn.before turn.after = [sampleAddress 1] ∧
        ∃ tx ∈ turn.before.mMemPool[turn.input.pointer]?, ∃ other ∈ turn.before.mMemPool[0]?,
          other.HotProperties.triggerRequired = true ∧ other.HotProperties.markedAsInvalid = false ∧
          IsDue sampleServices (turn.before.block.manager.ledger sampleTrie) (sampleAddress 1) tx other ∧
          ∀ other' ∈ turn.after.mMemPool[0]?, ¬Eligible true [] other' := by
    decide +kernel
  have htaken := turnsOfHistory_takenUp sampleTrie_documented _ _ turn hmem
  obtain ⟨o, hturn⟩ := htaken.taken
  have hcharges := (charges_iff_firedBy sampleTrie_documented htaken.ongoing hturn htx).mpr hfired
  have hne : 0 ≠ turn.input.pointer := by rw [hpointer]; exact Nat.zero_ne_one
  obtain ⟨hwakes, -⟩ := (hwoken.wakes turn hmem).woken tx _ hcharges 0 other hne hother ⟨hwaits, hvalid⟩
  obtain ⟨other', hother', heligible⟩ := hwakes hdue
  exact hlost other' hother' heligible

end Samples

end Gridnet
