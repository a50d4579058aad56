import Gridnet.GreedyMerge
import Gridnet.UnstableSort
import Gridnet.TransactionProcessing
import Gridnet.VerifiableModel

/-! The memory pool, and the order in which `getUnprocessedTransactions` takes the transactions out of it. -/

namespace Gridnet

/-- An object of the pool: a leaf that is a transaction or a verifiable, with the time it was received at, or any other
node. -/
inductive PoolObject where
  | transaction (tx : PoolTransaction) (mReceivedAt : UInt64)
  | verifiable (ver : PoolVerifiable) (mReceivedAt : UInt64)
  | other (HotProperties : HotStorageProperties)
  deriving DecidableEq, Repr

inductive eTransactionSortingAlgorithm where
  | feeHighestFirst | recentFirst | feesHighestFirstNonce
  deriving DecidableEq, Repr

/-- The transactions to be processed. With a trigger only those are left that require one and come from its domain. -/
def preFlight (ommitTriggering : Bool) (triggerID : Bytes) : List PoolObject → List PoolTransaction
  | [] => []
  | .transaction tx _ :: mMemPool =>
      if ommitTriggering && tx.HotProperties.triggerRequired then preFlight ommitTriggering triggerID mMemPool
      else if !triggerID.isEmpty && (!tx.HotProperties.triggerRequired || tx.mIssuer ≠ triggerID) then
        preFlight ommitTriggering triggerID mMemPool
      else if !tx.HotProperties.markedAsProcessed && !tx.HotProperties.markedAsInvalid then
        tx :: preFlight ommitTriggering triggerID mMemPool
      else preFlight ommitTriggering triggerID mMemPool
  | _ :: mMemPool => preFlight ommitTriggering triggerID mMemPool

variable (std : UnstableSort PoolTransaction)

def noncesAscending (a b : PoolTransaction) : Bool := a.mNonce < b.mNonce

/-- The transactions by the issuers that they name, those of each issuer by their nonces. -/
def issuerGroups (sortedUnprocessed : List PoolTransaction) : List (Bytes × List PoolTransaction) :=
  (GreedyMerge.groupBy (fun tx => tx.mIssuer) sortedUnprocessed).map fun group =>
    (group.1, std.sort noncesAscending group.2)

/-- The best bid among the next transactions of all issuers, again and again. -/
def feesHighestFirstNonce (sortedUnprocessed : List PoolTransaction) : List PoolTransaction :=
  GreedyMerge.merge (fun tx => tx.mErgPrice.toNat) (issuerGroups std sortedUnprocessed) sortedUnprocessed.length
    fun _ => 0

def getUnprocessedTransactions (alg : eTransactionSortingAlgorithm) (ommitTriggering : Bool) (triggerID : Bytes)
    (mMemPool : List PoolObject) : List PoolTransaction :=
  let sortedUnprocessed := preFlight ommitTriggering triggerID mMemPool
  match alg with
  | .feeHighestFirst => std.sort (fun a b => a.mErgPrice > b.mErgPrice) sortedUnprocessed
  | .feesHighestFirstNonce => feesHighestFirstNonce std sortedUnprocessed
  | .recentFirst => std.sort (fun a b => a.mTimestamp > b.mTimestamp) sortedUnprocessed

/-! ### Which transactions are taken -/

/-- Neither processed nor invalid, and what is asked for as to triggers. -/
structure Eligible (ommitTriggering : Bool) (triggerID : Bytes) (tx : PoolTransaction) : Prop where
  unprocessed : tx.HotProperties.markedAsProcessed = false
  valid : tx.HotProperties.markedAsInvalid = false
  untriggered : ommitTriggering = true → tx.HotProperties.triggerRequired = false
  triggered : triggerID ≠ [] → tx.HotProperties.triggerRequired = true ∧ tx.mIssuer = triggerID

instance (ommitTriggering : Bool) (triggerID : Bytes) (tx : PoolTransaction) :
    Decidable (Eligible ommitTriggering triggerID tx) :=
  decidable_of_iff (tx.HotProperties.markedAsProcessed = false ∧ tx.HotProperties.markedAsInvalid = false ∧
      (ommitTriggering = true → tx.HotProperties.triggerRequired = false) ∧
      (triggerID ≠ [] → tx.HotProperties.triggerRequired = true ∧ tx.mIssuer = triggerID))
    ⟨fun h => ⟨h.1, h.2.1, h.2.2.1, h.2.2.2⟩, fun h => ⟨h.1, h.2, h.3, h.4⟩⟩

/-- The transactions of a pool. -/
def transactionsOf : List PoolObject → List PoolTransaction
  | [] => []
  | .transaction tx _ :: mMemPool => tx :: transactionsOf mMemPool
  | _ :: mMemPool => transactionsOf mMemPool

theorem eligible_iff {ommitTriggering : Bool} {triggerID : Bytes} {tx : PoolTransaction} :
    Eligible ommitTriggering triggerID tx ↔
      ¬(ommitTriggering && tx.HotProperties.triggerRequired) = true ∧
        ¬(!triggerID.isEmpty && (!tx.HotProperties.triggerRequired || tx.mIssuer ≠ triggerID)) = true ∧
          (!tx.HotProperties.markedAsProcessed && !tx.HotProperties.markedAsInvalid) = true := by
  constructor
  · intro heligible
    refine ⟨?_, ?_, by simp [heligible.unprocessed, heligible.valid]⟩
    · cases hommit : ommitTriggering with
      | false => simp
      | true => simp [heligible.untriggered hommit]
    · by_cases hempty : triggerID = []
      · simp [hempty]
      · simp [(heligible.triggered hempty).1, (heligible.triggered hempty).2]
  · rintro ⟨hommit, htrigger, hmarks⟩
    simp only [Bool.and_eq_true, Bool.not_eq_true'] at hmarks
    refine ⟨hmarks.1, hmarks.2, fun h => ?_, fun hne => ?_⟩
    · simpa [h] using hommit
    · simpa [hne] using htrigger

theorem preFlight_eq (ommitTriggering : Bool) (triggerID : Bytes) (mMemPool : List PoolObject) :
    preFlight ommitTriggering triggerID mMemPool =
      (transactionsOf mMemPool).filter fun tx => Eligible ommitTriggering triggerID tx := by
  induction mMemPool with
  | nil => rfl
  | cons object mMemPool ih =>
      cases object with
      | transaction tx mReceivedAt =>
          rw [transactionsOf, List.filter_cons, preFlight, ih]
          simp only [decide_eq_true_eq, eligible_iff]
          split_ifs with hommit htrigger hmarks <;> simp_all
      | verifiable ver mReceivedAt => exact ih
      | other HotProperties => exact ih

end Gridnet
