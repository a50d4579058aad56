import Gridnet.BlockFormation
import Gridnet.PendingOrder
import Gridnet.Ranges
import Gridnet.Rounds

/-! Deferred transactions. Block formation works on the objects of the memory pool: a transaction whose nonce is too
high is deferred until its trigger fires, and every transaction that is charged fires the trigger of its account. The
loops of `processTransactions` are modelled here over the pool that they share with `untriggerTransactions` and
`getUnprocessedTransactions`. -/

namespace Gridnet

/-! ### Triggers -/

/-- `untriggerTransactions` at one transaction. There is one type of trigger, the domain of the issuer. -/
def untrigger (triggerID : Bytes) (tx : PoolTransaction) : PoolTransaction :=
  if tx.HotProperties.triggerRequired ∧ tx.mIssuer = triggerID then
    { tx with HotProperties := { tx.HotProperties with triggerRequired := false, markedAsProcessed := false } }
  else tx

/-- The triggers that fired, one after the other. -/
def untriggerAll (triggerIDs : List Bytes) (tx : PoolTransaction) : PoolTransaction :=
  triggerIDs.foldl (fun tx triggerID => untrigger triggerID tx) tx

/-- The marks that a transaction has at the end of its own turn, in which it may have been untriggered before it was
marked. -/
def PoolTransaction.ownMarks (tx : PoolTransaction) (triggerIDs : List Bytes) : PoolTransaction :=
  { tx with HotProperties := { tx.HotProperties with
      triggerRequired := (untriggerAll triggerIDs tx).HotProperties.triggerRequired } }

/-! ### Turns over the pool -/

/-- The transactions of the pool, where a position stands for a pointer, and what a call changes beside them. -/
structure PendingState (M : Type) where
  mMemPool : List PoolTransaction
  block : BlockState M

/-- A transaction that is taken up, by the first loop of a call or again by the second, and whether the call marks what
it processes. -/
structure Pick where
  pointer : ℕ
  again : Bool
  markAsProcessed : Bool

/-- Picks are made by calls that form blocks. -/
def Pick.mode (pick : Pick) : ProcessingMode where
  markAsProcessed := pick.markAsProcessed
  addToBlock := true
  verifyAgainstBlock := false

section Loops

variable (S : NodeServices) {M : Type} (calls : ManagerCalls M)

/-- A turn on a transaction, in either of the loops. -/
def Pick.turn (pick : Pick) (st : BlockState M) (tx : PoolTransaction) :
    Except ProcessFault (TurnEnd × PoolTransaction × BlockState M) :=
  if pick.again then retried S pick.mode calls st tx else processTurn S pick.mode calls st tx

/-- A turn on a transaction of the pool. The issuers that it adds to those with a transaction in the block are the
triggers that it fires. -/
def takeUp (s : PendingState M) (pick : Pick) : Except ProcessFault (Option TurnEnd × PendingState M) :=
  match s.mMemPool[pick.pointer]? with
  | none => .ok (none, s)
  | some tx =>
      match pick.turn S calls s.block tx with
      | .error e => .error e
      | .ok (ending, tx, block) =>
          let triggerIDs := block.issuersWithSuccessfulTx.drop s.block.issuersWithSuccessfulTx.length
          .ok (if ending = .proceed then none else some ending,
            { mMemPool := (s.mMemPool.map (untriggerAll triggerIDs)).set pick.pointer (tx.ownMarks triggerIDs)
              block })

/-- Either loop, over the transactions that it picks. -/
def pendingLoop (running : ℕ → Bool) : Rounds.Body (PendingState M) Pick TurnEnd ProcessFault where
  goesOn left s := running left.length && withinLimits S s.block
  passesOver s pick := (s.mMemPool[pick.pointer]?).any fun tx => tx.HotProperties.markedAsProcessed
  step := takeUp S calls

end Loops

/-! ### Calls -/

/-- The pointers that `getUnprocessedTransactions` collects when it leaves out what waits for a trigger. -/
def unprocessedPointers (mMemPool : List PoolTransaction) : List ℕ :=
  (List.range mMemPool.length).filter fun i => (mMemPool[i]?).any fun tx => Eligible true [] tx

/-- An order in which a pool hands out its transactions. -/
structure PoolOrder where
  sorted : List PoolTransaction → List ℕ → List ℕ
  perm : ∀ mMemPool pointers, (sorted mMemPool pointers).Perm pointers

/-- A call that forms a block without a checkpoint, with the transactions that arrived in the pool since the last one.
In phantom mode nothing is marked, and what was processed before is told by its hash. -/
structure FormationCall {DB : Type} (T : LedgerTrie DB) where
  markAsProcessed : Bool
  running : ℕ → Bool
  order : PoolOrder
  isPhantomProcessed : CTransaction → Bool
  arrivals : List PoolTransaction
  start : BlockState (TransactionManager DB)
  notCheckpointed : start.proposal.isCheckpointed = false
  ready : start.manager.Ready T

/-- A turn over the pool. -/
abbrev PendingTurn (DB : Type) := Rounds.Round (PendingState (TransactionManager DB)) Pick

namespace FormationCall

variable (S : NodeServices) {DB : Type} {T : LedgerTrie DB} (call : FormationCall T)

/-- The transactions that the first loop goes over. -/
def batch (mMemPool : List PoolTransaction) : List Pick :=
  ((call.order.sorted mMemPool (unprocessedPointers mMemPool)).filter fun i =>
      call.markAsProcessed || (mMemPool[i]?).all fun tx => !call.isPhantomProcessed tx.toCTransaction).map
    fun pointer => { pointer, again := false, markAsProcessed := call.markAsProcessed }

/-- The transactions that the second loop goes over: those that the pool hands out now, of issuers with a transaction
in the block. -/
def toRetry (s : PendingState (TransactionManager DB)) : List Pick :=
  ((call.order.sorted s.mMemPool (unprocessedPointers s.mMemPool)).filter fun i =>
      (s.mMemPool[i]?).any fun tx =>
        tx.mIssuer ∈ s.block.issuersWithSuccessfulTx ∧ tx.HotProperties.markedAsProcessed = false).map
    fun pointer => { pointer, again := true, markAsProcessed := call.markAsProcessed }

/-- The second loop takes place. -/
def retries (s : PendingState (TransactionManager DB)) : Bool :=
  call.markAsProcessed && s.block.issuersWithSuccessfulTx ≠ [] && withinLimits S s.block

/-- The state in which the first loop starts. -/
def begun (mMemPool : List PoolTransaction) : PendingState (TransactionManager DB) where
  mMemPool := mMemPool
  block := call.start.begun

/-- The first loop. -/
def firstLoop (mMemPool : List PoolTransaction) :
    List (PendingTurn DB) × Except ProcessFault (Option TurnEnd × PendingState (TransactionManager DB)) :=
  Rounds.loop (pendingLoop S (managerCalls S T) call.running) (call.batch mMemPool) (call.begun mMemPool)

/-- The second loop, which has no time limit. -/
def secondLoop (s : PendingState (TransactionManager DB)) :
    List (PendingTurn DB) × Except ProcessFault (Option TurnEnd × PendingState (TransactionManager DB)) :=
  Rounds.loop (pendingLoop S (managerCalls S T) fun _ => true) (call.toRetry s) s

/-- The turns of a call, and the answer and the state at its end. -/
def processTransactions (mMemPool : List PoolTransaction) :
    List (PendingTurn DB) × Except ProcessFault (Bool × PendingState (TransactionManager DB)) :=
  if call.batch mMemPool = [] then ([], .ok (true, ⟨mMemPool, call.start⟩))
  else
    let first := call.firstLoop S mMemPool
    match first.2 with
    | .error e => (first.1, .error e)
    | .ok (some .reject, s) => (first.1, .ok (false, s))
    | .ok (some _, s) => (first.1, .ok (countAgrees s.block, s))
    | .ok (none, s) =>
        if call.retries S s then
          let second := call.secondLoop S s
          match second.2 with
          | .error e => (first.1 ++ second.1, .error e)
          | .ok (_, s) => (first.1 ++ second.1, .ok (countAgrees s.block, s))
        else (first.1, .ok (countAgrees s.block, s))

end FormationCall

/-- The turns of a history of calls, each over the pool that the one before it left and what arrived since. A fault ends
the process. -/
def turnsOfHistory (S : NodeServices) {DB : Type} {T : LedgerTrie DB} :
    List PoolTransaction → List (FormationCall T) → List (PendingTurn DB)
  | _, [] => []
  | mMemPool, call :: history =>
      let result := call.processTransactions S (mMemPool ++ call.arrivals)
      match result.2 with
      | .error _ => result.1
      | .ok (_, s) => result.1 ++ turnsOfHistory S s.mMemPool history

section Facts

variable {S : NodeServices} {DB : Type} {T : LedgerTrie DB}

theorem mem_unprocessedPointers {mMemPool : List PoolTransaction} {i : ℕ} :
    i ∈ unprocessedPointers mMemPool ↔ ∃ tx, mMemPool[i]? = some tx ∧ Eligible true [] tx := by
  rw [unprocessedPointers, List.mem_filter, List.mem_range, Option.any_eq_true]
  simp only [decide_eq_true_eq]
  constructor
  · exact And.right
  · rintro ⟨tx, htx, heligible⟩
    exact ⟨(List.getElem?_eq_some_iff.mp htx).1, tx, htx, heligible⟩

theorem unprocessedPointers_nodup (mMemPool : List PoolTransaction) : (unprocessedPointers mMemPool).Nodup :=
  List.nodup_range.filter _

theorem untrigger_of_not {triggerID : Bytes} {tx : PoolTransaction}
    (hother : ¬(tx.HotProperties.triggerRequired = true ∧ tx.mIssuer = triggerID)) :
    untrigger triggerID tx = tx := if_neg hother

/-- Only what waits for a trigger is changed by one. -/
theorem untriggerAll_of_untriggered (triggerIDs : List Bytes) {tx : PoolTransaction}
    (hfree : tx.HotProperties.triggerRequired = false) : untriggerAll triggerIDs tx = tx := by
  induction triggerIDs with
  | nil => rfl
  | cons triggerID triggerIDs ih =>
      rw [untriggerAll, List.foldl_cons, untrigger_of_not (by simp [hfree])]
      exact ih

/-- A turn of a pool: of the transaction at the pointer and, beside it, of the triggers that it fires. -/
theorem takeUp_ok {M : Type} {calls : ManagerCalls M} {s s' : PendingState M} {pick : Pick} {o : Option TurnEnd}
    (hturn : takeUp S calls s pick = .ok (o, s')) {tx : PoolTransaction}
    (htx : s.mMemPool[pick.pointer]? = some tx) :
    ∃ ending tx', pick.turn S calls s.block tx = .ok (ending, tx', s'.block) ∧
      o = (if ending = .proceed then none else some ending) ∧
      s'.mMemPool = (s.mMemPool.map (untriggerAll
        (s'.block.issuersWithSuccessfulTx.drop s.block.issuersWithSuccessfulTx.length))).set pick.pointer
          (tx'.ownMarks (s'.block.issuersWithSuccessfulTx.drop s.block.issuersWithSuccessfulTx.length)) := by
  unfold takeUp at hturn
  rw [htx] at hturn
  dsimp only at hturn
  cases hresult : pick.turn S calls s.block tx with
  | error e => rw [hresult] at hturn; cases hturn
  | ok result =>
      obtain ⟨ending, tx', block⟩ := result
      rw [hresult] at hturn
      cases hturn
      exact ⟨ending, tx', rfl, rfl, rfl⟩

/-- The other transactions of the pool, after a turn. -/
theorem takeUp_others {M : Type} {calls : ManagerCalls M} {s s' : PendingState M} {pick : Pick} {o : Option TurnEnd}
    (hturn : takeUp S calls s pick = .ok (o, s')) {j : ℕ} (hj : j ≠ pick.pointer) :
    s'.mMemPool[j]? = (s.mMemPool[j]?).map (untriggerAll
      (s'.block.issuersWithSuccessfulTx.drop s.block.issuersWithSuccessfulTx.length)) := by
  cases htx : s.mMemPool[pick.pointer]? with
  | none =>
      unfold takeUp at hturn
      rw [htx] at hturn
      cases hturn
      rw [List.drop_length]
      cases s.mMemPool[j]? <;> rfl
  | some tx =>
      obtain ⟨ending, tx', -, -, hpool⟩ := takeUp_ok hturn htx
      rw [hpool, List.getElem?_set_ne (Ne.symm hj), List.getElem?_map]

/-- Its own transaction. -/
theorem takeUp_own {M : Type} {calls : ManagerCalls M} {s s' : PendingState M} {pick : Pick} {o : Option TurnEnd}
    (hturn : takeUp S calls s pick = .ok (o, s')) {tx : PoolTransaction}
    (htx : s.mMemPool[pick.pointer]? = some tx) :
    ∃ ending tx', pick.turn S calls s.block tx = .ok (ending, tx', s'.block) ∧
      o = (if ending = .proceed then none else some ending) ∧
      s'.mMemPool[pick.pointer]? = some (tx'.ownMarks
        (s'.block.issuersWithSuccessfulTx.drop s.block.issuersWithSuccessfulTx.length)) := by
  obtain ⟨ending, tx', hresult, houtcome, hpool⟩ := takeUp_ok hturn htx
  refine ⟨ending, tx', hresult, houtcome, ?_⟩
  obtain ⟨hlt, -⟩ := List.getElem?_eq_some_iff.mp htx
  rw [hpool, List.getElem?_set_self (by simpa using hlt)]

end Facts

end Gridnet
