import Gridnet.BlockProcessing

/-! The turns of a run of `processTransactions`, as a list: what is kept from turn to turn is kept by a
run. The second loop has the form of the first. -/

namespace Gridnet

/-- A turn of a run: the state before it, the transaction, how it ended, and the state after it. -/
structure BlockTurn (M : Type) where
  before : BlockState M
  transaction : PoolTransaction
  ending : TurnEnd
  after : BlockState M

/-- The domains at the start of a turn. -/
def BlockTurn.ledger {DB : Type} (T : LedgerTrie DB) (turn : BlockTurn (TransactionManager DB)) :
    Ledger :=
  turn.before.manager.ledger T

section Turns

variable (S : NodeServices) {M : Type}
  (processTurn : BlockState M → PoolTransaction →
    Except ProcessFault (TurnEnd × PoolTransaction × BlockState M)) (running : ℕ → Bool)

/-- The turns of a loop. -/
def turnsOf : List PoolTransaction → BlockState M → List (BlockTurn M)
  | [], _ => []
  | t :: ts, st =>
      if running ts.length ∧ withinLimits S st then
        if t.HotProperties.markedAsProcessed then turnsOf ts st
        else
          match processTurn st t with
          | .error _ => []
          | .ok (.proceed, _, st') => ⟨st, t, .proceed, st'⟩ :: turnsOf ts st'
          | .ok (ending, _, st') => [⟨st, t, ending, st'⟩]
      else []

/-- Each turn starts from where the one before it ended. -/
def Linked : BlockState M → List (BlockTurn M) → BlockState M → Prop
  | st, [], st' => st = st'
  | st, turn :: turns, st' => turn.before = st ∧ Linked turn.after turns st'

variable {S processTurn running} {ts ts' : List PoolTransaction} {st st' : BlockState M}
  {turns : List (BlockTurn M)} {turn : BlockTurn M} {ending : TurnEnd}

theorem Linked.append {st₁ : BlockState M} {turns' : List (BlockTurn M)}
    (hfirst : Linked st turns st₁) (hsecond : Linked st₁ turns' st') :
    Linked st (turns ++ turns') st' := by
  induction turns generalizing st with
  | nil =>
      obtain rfl : st = st₁ := hfirst
      exact hsecond
  | cons turn turns ih =>
      obtain ⟨rfl, hrest⟩ := hfirst
      exact ⟨rfl, ih hrest⟩

/-- What every turn keeps holds before every turn and at the end. -/
theorem Linked.keeps {I : BlockState M → Prop} (hlinked : Linked st turns st') (hst : I st)
    (hstep : ∀ turn ∈ turns, I turn.before → I turn.after) :
    I st' ∧ ∀ turn ∈ turns, I turn.before := by
  induction turns generalizing st with
  | nil =>
      obtain rfl : st = st' := hlinked
      exact ⟨hst, fun _ h => nomatch h⟩
  | cons turn turns ih =>
      obtain ⟨rfl, hrest⟩ := hlinked
      have hafter := hstep turn List.mem_cons_self hst
      obtain ⟨hend, hturns⟩ := ih hrest hafter fun x hx => hstep x (List.mem_cons_of_mem _ hx)
      refine ⟨hend, fun x hx => ?_⟩
      rcases List.mem_cons.mp hx with rfl | hx
      · exact hst
      · exact hturns x hx

theorem turnsOf_cons (t : PoolTransaction) (ts : List PoolTransaction) (st : BlockState M) :
    turnsOf S processTurn running (t :: ts) st =
      if running ts.length ∧ withinLimits S st then
        if t.HotProperties.markedAsProcessed then turnsOf S processTurn running ts st
        else
          match processTurn st t with
          | .error _ => []
          | .ok (.proceed, _, st') =>
              ⟨st, t, .proceed, st'⟩ :: turnsOf S processTurn running ts st'
          | .ok (ending, _, st') => [⟨st, t, ending, st'⟩]
      else [] := rfl

/-- A loop, by its turns: it skips the transactions that are marked, takes a turn for another, and
stops where the limits, or a turn, make it. -/
theorem processLoop_cases {t : PoolTransaction}
    (hloop : processLoop S processTurn running (t :: ts) st = .ok (ending, ts', st')) :
    (turnsOf S processTurn running (t :: ts) st = turnsOf S processTurn running ts st ∧
      ∃ rest, processLoop S processTurn running ts st = .ok (ending, rest, st')) ∨
    (∃ t₁ st₁ rest, processTurn st t = .ok (.proceed, t₁, st₁) ∧
      turnsOf S processTurn running (t :: ts) st =
        ⟨st, t, .proceed, st₁⟩ :: turnsOf S processTurn running ts st₁ ∧
      processLoop S processTurn running ts st₁ = .ok (ending, rest, st')) ∨
    (∃ t₁, processTurn st t = .ok (ending, t₁, st') ∧
      turnsOf S processTurn running (t :: ts) st = [⟨st, t, ending, st'⟩]) ∨
    (turnsOf S processTurn running (t :: ts) st = [] ∧ ending = .proceed ∧ st = st') := by
  unfold processLoop at hloop
  rw [turnsOf_cons]
  by_cases hrun : running ts.length = true ∧ withinLimits S st = true
  · rw [if_pos hrun] at hloop ⊢
    by_cases hmarked : t.HotProperties.markedAsProcessed = true
    · rw [if_pos hmarked] at hloop ⊢
      cases hrest : processLoop S processTurn running ts st with
      | error e =>
          rw [hrest] at hloop
          cases hloop
      | ok result =>
          rw [hrest] at hloop
          cases hloop
          exact Or.inl ⟨rfl, _, rfl⟩
    · rw [if_neg hmarked] at hloop ⊢
      cases hturn : processTurn st t with
      | error e =>
          rw [hturn] at hloop
          cases hloop
      | ok result =>
          rw [hturn] at hloop
          obtain ⟨ending₁, t₁, st₁⟩ := result
          cases ending₁ with
          | proceed =>
              dsimp only at hloop ⊢
              cases hrest : processLoop S processTurn running ts st₁ with
              | error e =>
                  rw [hrest] at hloop
                  cases hloop
              | ok result =>
                  rw [hrest] at hloop
                  cases hloop
                  exact Or.inr (Or.inl ⟨t₁, st₁, _, rfl, rfl, hrest⟩)
          | leaveLoop =>
              cases hloop
              exact Or.inr (Or.inr (Or.inl ⟨t₁, rfl, rfl⟩))
          | reject =>
              cases hloop
              exact Or.inr (Or.inr (Or.inl ⟨t₁, rfl, rfl⟩))
  · rw [if_neg hrun] at hloop ⊢
    cases hloop
    exact Or.inr (Or.inr (Or.inr ⟨rfl, rfl, rfl⟩))

theorem processLoop_linked
    (hloop : processLoop S processTurn running ts st = .ok (ending, ts', st')) :
    Linked st (turnsOf S processTurn running ts st) st' := by
  induction ts generalizing st ts' with
  | nil => exact congrArg (fun x => x.2.2) (Except.ok.inj hloop)
  | cons t ts ih =>
      rcases processLoop_cases hloop with ⟨hturns, rest, hrest⟩ |
        ⟨t₁, st₁, rest, -, hturns, hrest⟩ | ⟨t₁, -, hturns⟩ | ⟨hturns, -, hsame⟩
      · rw [hturns]
        exact ih hrest
      · rw [hturns]
        exact ⟨rfl, ih hrest⟩
      · rw [hturns]
        exact ⟨rfl, rfl⟩
      · rw [hturns]
        exact hsame

/-- A turn of a loop is one of its turn function, and only the last turn ends the loop. -/
theorem turnsOf_step (hmem : turn ∈ turnsOf S processTurn running ts st) :
    ∃ t, processTurn turn.before turn.transaction = .ok (turn.ending, t, turn.after) := by
  induction ts generalizing st with
  | nil => cases hmem
  | cons t ts ih =>
      rw [turnsOf_cons] at hmem
      split_ifs at hmem
      · exact ih hmem
      · cases hturn : processTurn st t with
        | error e =>
            rw [hturn] at hmem
            cases hmem
        | ok result =>
            rw [hturn] at hmem
            obtain ⟨ending₁, t₁, st₁⟩ := result
            cases ending₁ with
            | proceed =>
                rcases List.mem_cons.mp hmem with rfl | hmem
                · exact ⟨t₁, hturn⟩
                · exact ih hmem
            | leaveLoop =>
                obtain rfl := List.mem_singleton.mp hmem
                exact ⟨t₁, hturn⟩
            | reject =>
                obtain rfl := List.mem_singleton.mp hmem
                exact ⟨t₁, hturn⟩
      · cases hmem

theorem turnsOf_ending (hloop : processLoop S processTurn running ts st = .ok (ending, ts', st'))
    (hmem : turn ∈ turnsOf S processTurn running ts st) :
    turn.ending = .proceed ∨ turn.ending = ending := by
  induction ts generalizing st ts' with
  | nil => cases hmem
  | cons t ts ih =>
      rcases processLoop_cases hloop with ⟨hturns, rest, hrest⟩ |
        ⟨t₁, st₁, rest, -, hturns, hrest⟩ | ⟨t₁, -, hturns⟩ | ⟨hturns, -, -⟩
      · rw [hturns] at hmem
        exact ih hrest hmem
      · rw [hturns] at hmem
        rcases List.mem_cons.mp hmem with rfl | hmem
        · exact Or.inl rfl
        · exact ih hrest hmem
      · rw [hturns] at hmem
        obtain rfl := List.mem_singleton.mp hmem
        exact Or.inr rfl
      · rw [hturns] at hmem
        cases hmem

/-- A loop that is ended by a turn has that turn. -/
theorem turnsOf_last (hloop : processLoop S processTurn running ts st = .ok (ending, ts', st')) :
    ending = .proceed ∨ ∃ turn ∈ turnsOf S processTurn running ts st, turn.ending = ending := by
  induction ts generalizing st ts' with
  | nil => exact Or.inl (congrArg Prod.fst (Except.ok.inj hloop)).symm
  | cons t ts ih =>
      rcases processLoop_cases hloop with ⟨hturns, rest, hrest⟩ |
        ⟨t₁, st₁, rest, -, hturns, hrest⟩ | ⟨t₁, -, hturns⟩ | ⟨-, hproceed, -⟩
      · rw [hturns]
        exact ih hrest
      · rw [hturns]
        refine (ih hrest).imp_right ?_
        rintro ⟨turn, hmem, hending⟩
        exact ⟨turn, List.mem_cons_of_mem _ hmem, hending⟩
      · rw [hturns]
        exact Or.inr ⟨_, List.mem_cons_self, rfl⟩
      · exact Or.inl hproceed

/-- A turn begins within the limits. -/
theorem turnsOf_within (hmem : turn ∈ turnsOf S processTurn running ts st) :
    withinLimits S turn.before = true := by
  induction ts generalizing st with
  | nil => cases hmem
  | cons t ts ih =>
      rw [turnsOf_cons] at hmem
      split_ifs at hmem with hrun
      · exact ih hmem
      · cases hturn : processTurn st t with
        | error e =>
            rw [hturn] at hmem
            cases hmem
        | ok result =>
            rw [hturn] at hmem
            obtain ⟨ending₁, t₁, st₁⟩ := result
            cases ending₁ with
            | proceed =>
                rcases List.mem_cons.mp hmem with rfl | hmem
                · exact hrun.2
                · exact ih hmem
            | leaveLoop =>
                obtain rfl := List.mem_singleton.mp hmem
                exact hrun.2
            | reject =>
                obtain rfl := List.mem_singleton.mp hmem
                exact hrun.2
      · cases hmem

theorem turnsOf_sublist (ts : List PoolTransaction) (st : BlockState M) :
    ((turnsOf S processTurn running ts st).map BlockTurn.transaction).Sublist ts := by
  induction ts generalizing st with
  | nil => exact List.Sublist.slnil
  | cons t ts ih =>
      rw [turnsOf_cons]
      split_ifs
      · exact (ih st).cons t
      · cases processTurn st t with
        | error e => exact List.nil_sublist _
        | ok result =>
            obtain ⟨ending, t₁, st₁⟩ := result
            cases ending with
            | proceed => exact (ih st₁).cons_cons t
            | leaveLoop => exact List.singleton_sublist.mpr List.mem_cons_self
            | reject => exact List.singleton_sublist.mpr List.mem_cons_self
      · exact List.nil_sublist _

end Turns

/-! ### Both loops of a call -/

section Call

variable (S : NodeServices) {M : Type} (mode : ProcessingMode) (calls : ManagerCalls M)
  (running : ℕ → Bool) (transactions unprocessed : List PoolTransaction)

/-- The state in which the first loop starts. -/
def BlockState.begun (st : BlockState M) : BlockState M :=
  { st with countOfDomains := 0, issuersWithSuccessfulTx := [] }

/-- The turns of the first loop. -/
def mainTurns (st : BlockState M) : List (BlockTurn M) :=
  if mode.addToBlock = mode.verifyAgainstBlock then []
  else turnsOf S (processTurn S mode calls) running transactions st.begun

/-- A turn of the second loop, as one of the first. -/
def retried (st : BlockState M) (t : PoolTransaction) :
    Except ProcessFault (TurnEnd × PoolTransaction × BlockState M) :=
  match retryTurn S mode calls st t with
  | .error e => .error e
  | .ok (t, st) => .ok (.proceed, t, st)

/-- The turns of the second loop. -/
def retryTurns (st : BlockState M) : List (BlockTurn M) :=
  if mode.addToBlock = mode.verifyAgainstBlock then []
  else
    match processLoop S (processTurn S mode calls) running transactions st.begun with
    | .ok (.proceed, _, st') =>
        if mode.verifyAgainstBlock = false ∧ mode.markAsProcessed ∧
            st'.issuersWithSuccessfulTx ≠ [] ∧ withinLimits S st' then
          turnsOf S (retried S mode calls) (fun _ => true) (toRetry unprocessed st') st'
        else []
    | _ => []

variable {S mode calls running transactions unprocessed} {st st' : BlockState M}
  {ts ts' : List PoolTransaction} {accepted : Bool}

theorem mainTurns_step {turn : BlockTurn M}
    (hmem : turn ∈ mainTurns S mode calls running transactions st) :
    ∃ t, processTurn S mode calls turn.before turn.transaction = .ok (turn.ending, t, turn.after) := by
  unfold mainTurns at hmem
  split_ifs at hmem
  · cases hmem
  · exact turnsOf_step hmem

theorem mainTurns_sublist (st : BlockState M) :
    ((mainTurns S mode calls running transactions st).map BlockTurn.transaction).Sublist
      transactions := by
  unfold mainTurns
  split_ifs
  · exact List.nil_sublist _
  · exact turnsOf_sublist _ _

theorem retryTurns_step {turn : BlockTurn M}
    (hmem : turn ∈ retryTurns S mode calls running transactions unprocessed st) :
    ∃ t, retryTurn S mode calls turn.before turn.transaction = .ok (t, turn.after) := by
  unfold retryTurns at hmem
  split_ifs at hmem
  · cases hmem
  split at hmem
  · split_ifs at hmem
    · obtain ⟨t, hturn⟩ := turnsOf_step hmem
      unfold retried at hturn
      cases hretry : retryTurn S mode calls turn.before turn.transaction with
      | error e =>
          rw [hretry] at hturn
          cases hturn
      | ok result =>
          rw [hretry] at hturn
          obtain ⟨-, hrest⟩ := Prod.mk.inj (Except.ok.inj hturn)
          exact ⟨t, congrArg Except.ok hrest⟩
    · cases hmem
  · cases hmem

theorem retryTurns_mem {turn : BlockTurn M}
    (hmem : turn ∈ retryTurns S mode calls running transactions unprocessed st) :
    turn.transaction ∈ unprocessed := by
  unfold retryTurns at hmem
  split_ifs at hmem
  · cases hmem
  split at hmem
  · split_ifs at hmem
    · have hretried := (turnsOf_sublist _ _).subset (List.mem_map_of_mem hmem)
      exact List.mem_of_mem_filter hretried
    · cases hmem
  · cases hmem

theorem turns_within {turn : BlockTurn M}
    (hmem : turn ∈ mainTurns S mode calls running transactions st ++
      retryTurns S mode calls running transactions unprocessed st) :
    withinLimits S turn.before = true := by
  rcases List.mem_append.mp hmem with hmain | hretry
  · unfold mainTurns at hmain
    split_ifs at hmain
    · cases hmain
    · exact turnsOf_within hmain
  · unfold retryTurns at hretry
    split_ifs at hretry
    · cases hretry
    split at hretry
    · split_ifs at hretry
      · exact turnsOf_within hretry
      · cases hretry
    · cases hretry

theorem retryLoop_eq (ts : List PoolTransaction) (st : BlockState M) :
    retryLoop S mode calls ts st =
      match processLoop S (retried S mode calls) (fun _ => true) ts st with
      | .error e => .error e
      | .ok (_, ts, st) => .ok (ts, st) := by
  induction ts generalizing st with
  | nil => rfl
  | cons t ts ih =>
      unfold retryLoop processLoop
      by_cases hwithin : withinLimits S st = true
      · have hrun : true = true ∧ withinLimits S st = true := ⟨rfl, hwithin⟩
        rw [if_pos hwithin, if_pos hrun]
        by_cases hmarked : t.HotProperties.markedAsProcessed = true
        · rw [if_pos hmarked, if_pos hmarked, ih]
          cases processLoop S (retried S mode calls) (fun _ => true) ts st with
          | error e => rfl
          | ok result => rfl
        · rw [if_neg hmarked, if_neg hmarked, retried]
          cases retryTurn S mode calls st t with
          | error e => rfl
          | ok result =>
              dsimp only
              rw [ih]
              cases processLoop S (retried S mode calls) (fun _ => true) ts result.2 with
              | error e => rfl
              | ok result => rfl
      · rw [if_neg hwithin, if_neg fun h => hwithin h.2]

/-- A call that does not reject its block goes from turn to turn through both loops. -/
theorem processTransactions_linked (hmode : mode.addToBlock ≠ mode.verifyAgainstBlock)
    (hne : transactions ≠ [])
    (hcall : processTransactions S mode calls running transactions unprocessed st =
      .ok (accepted, ts', st')) :
    (accepted = false ∧
        (∃ turn ∈ mainTurns S mode calls running transactions st, turn.ending = .reject) ∧
        Linked st.begun (mainTurns S mode calls running transactions st) st') ∨
      (∀ turn ∈ mainTurns S mode calls running transactions st, turn.ending ≠ .reject) ∧
      Linked st.begun (mainTurns S mode calls running transactions st ++
        retryTurns S mode calls running transactions unprocessed st) st' ∧
      accepted = countAgrees st' := by
  unfold processTransactions at hcall
  rw [if_neg hmode, if_neg hne] at hcall
  unfold mainTurns retryTurns
  rw [if_neg hmode, if_neg hmode]
  cases hloop : processLoop S (processTurn S mode calls) running transactions st.begun with
  | error e =>
      rw [BlockState.begun] at hloop
      rw [hloop] at hcall
      cases hcall
  | ok result =>
      obtain ⟨ending, ts, st₁⟩ := result
      have hlinked := processLoop_linked hloop
      have hlast := turnsOf_last hloop
      have hgoes : ending ≠ .reject → ∀ turn ∈ turnsOf S (processTurn S mode calls) running
          transactions st.begun, turn.ending ≠ .reject := by
        intro hending turn hmem
        rcases turnsOf_ending hloop hmem with hturn | hturn
        · rw [hturn]
          nofun
        · rwa [hturn]
      rw [BlockState.begun] at hloop
      rw [hloop] at hcall
      cases ending with
      | reject =>
          cases hcall
          exact Or.inl ⟨rfl, hlast.resolve_left nofun, hlinked⟩
      | leaveLoop =>
          dsimp only at hcall ⊢
          unfold afterLoop at hcall
          rw [if_neg fun h => nomatch h.2.2.1] at hcall
          cases hcall
          rw [List.append_nil]
          exact Or.inr ⟨hgoes nofun, hlinked, rfl⟩
      | proceed =>
          dsimp only at hcall ⊢
          unfold afterLoop at hcall
          simp only [true_and] at hcall
          by_cases hretry : mode.verifyAgainstBlock = false ∧ mode.markAsProcessed = true ∧
              st₁.issuersWithSuccessfulTx ≠ [] ∧ withinLimits S st₁ = true
          · rw [if_pos hretry, retryLoop_eq] at hcall
            rw [if_pos hretry]
            cases hagain : processLoop S (retried S mode calls) (fun _ => true)
                (toRetry unprocessed st₁) st₁ with
            | error e =>
                rw [hagain] at hcall
                cases hcall
            | ok result =>
                rw [hagain] at hcall
                cases hcall
                exact Or.inr ⟨hgoes nofun, hlinked.append (processLoop_linked hagain), rfl⟩
          · rw [if_neg hretry] at hcall ⊢
            cases hcall
            rw [List.append_nil]
            exact Or.inr ⟨hgoes nofun, hlinked, rfl⟩

end Call

end Gridnet
