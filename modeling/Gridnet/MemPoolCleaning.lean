import Gridnet.EraseLoop
import Gridnet.MemPool
import Gridnet.BlockProcessing

/-! Removals from the memory pool: `cleanMemPool` and `removeTransactionFromMemPool`, which erase from the vector that
they go over. -/

namespace Gridnet

/-- An entry of the pool: the pointer that is held and the object that it points to. -/
structure PoolEntry where
  pointer : ℕ
  object : PoolObject
  deriving DecidableEq, Repr

/-- The pool. What is registered is copied into a new object first, so that no two entries point to one. -/
structure MemPool where
  entries : List PoolEntry
  distinct : (entries.map PoolEntry.pointer).Nodup

def PoolObject.HotProperties : PoolObject → HotStorageProperties
  | .transaction tx _ => tx.HotProperties
  | .verifiable ver _ => ver.HotProperties
  | .other HotProperties => HotProperties

structure CTXInfo where
  /-- The height of the block in the receipt, where there is one. -/
  receiptHeight : Option UInt64 := none

/-- What the removals read outside the pool: the node's services and its state, the clock of the tools, which has been
running for a day, the chain, and the descriptions of transactions that the chain manager keeps; `M` is what it has of
them by now, with the time, and `D` a pointer to one. -/
structure PoolServices (M D : Type) where
  toNodeServices : NodeServices
  ledger : Ledger
  getHash : PoolTransaction → Bytes
  getHash_length : ∀ tx, (getHash tx).length = 32
  currentTime : UInt64
  currentTime_ge : 86400 ≤ currentTime
  getCachedHeight : UInt64
  getCachedKeyHeight : UInt64
  getTransactionInfoByReceiptID : Bytes → Option CTXInfo
  getMemPoolTXMeta : M → Bytes → Option D
  createTransactionDescription : M → PoolTransaction → Option D × M
  addMemPoolTXMeta : M → Bytes → D → M
  getValue : M → D → BigInt
  getLastPreValidation : M → D → UInt64
  setLastPreValidationResult : M → D → eTransactionValidationResult → M
  time : M → UInt64

/-- The variables of the clean-up that live through its turns, and the objects it has looked at so far. -/
structure CleanState (M D : Type) where
  manager : M
  transDesc : Option D := none
  examined : List ℕ := []

/-- How old an object may get, in seconds. -/
def ageLimit (hot : HotStorageProperties) : UInt64 :=
  if hot.markedAsInvalid then 150 else if hot.markedAsProcessed then 1800 else 86400

namespace PoolServices

variable {M D : Type} (S : PoolServices M D)

def receiptID (tx : PoolTransaction) : Bytes := S.toNodeServices.getReceiptIDForTransaction (S.getHash tx)

/-- The height at which the chain has a receipt of the transaction. -/
def receiptHeight (tx : PoolTransaction) : Option UInt64 :=
  (S.getTransactionInfoByReceiptID (S.receiptID tx)).bind CTXInfo.receiptHeight

def confirmedDeeply (blockHeight : UInt64) : Bool :=
  S.getCachedHeight ≠ 0 && blockHeight ≠ 0 && S.getCachedHeight > blockHeight && S.getCachedHeight - blockHeight > 2

def timeDiff (mReceivedAt : UInt64) : UInt64 := S.currentTime - mReceivedAt

/-- The description of a transaction, a new one where there is none yet. Where none can be had, that of an earlier turn
stays. -/
def retrieveMetadata (s : CleanState M D) (tx : PoolTransaction) : CleanState M D :=
  match S.getMemPoolTXMeta s.manager (S.receiptID tx) with
  | some txMeta => { s with transDesc := some txMeta }
  | none =>
      match S.createTransactionDescription s.manager tx with
      | (none, manager) => { s with manager }
      | (some txMeta, manager) =>
          let manager := if (S.getTransactionInfoByReceiptID (S.receiptID tx)).isNone then
            S.addMemPoolTXMeta manager (S.receiptID tx) txMeta else manager
          { s with manager, transDesc := some txMeta }

/-- The pre-validation, unless it was done within the last five seconds. -/
def preValidationUpdate (s : CleanState M D) (tx : PoolTransaction) : PoolTransaction × CleanState M D :=
  match s.transDesc with
  | none => (tx, s)
  | some transDesc =>
      let lastValidation := S.getLastPreValidation s.manager transDesc
      if lastValidation = 0 ∨ S.time s.manager ≥ lastValidation + 5 then
        let preValResult := preValidateTransaction S.toNodeServices S.ledger tx.toCTransaction S.getCachedKeyHeight
          (some (S.getValue s.manager transDesc))
        let tx := if preValResult = .invalidBytecode ∨ preValResult = .invalidSig then tx.markHotAsInvalid else tx
        (tx, { s with manager := S.setLastPreValidationResult s.manager transDesc preValResult })
      else (tx, s)

/-- One turn of the clean-up: the object is kept or deleted. -/
def examine (s : CleanState M D) (entry : PoolEntry) : Option PoolEntry × CleanState M D :=
  let s := { s with examined := s.examined ++ [entry.pointer] }
  if entry.object.HotProperties.markedForDeletion then (none, s)
  else if entry.object.HotProperties.markedAsInvalid then (none, s)
  else
    match entry.object with
    | .transaction tx mReceivedAt =>
        match S.receiptHeight tx with
        | some blockHeight => (if S.confirmedDeeply blockHeight then none else some entry, s)
        | none =>
            let (tx, s) := S.preValidationUpdate (S.retrieveMetadata s tx) tx
            (if S.timeDiff mReceivedAt > ageLimit tx.HotProperties then none
              else some { entry with object := .transaction tx mReceivedAt }, s)
    | .verifiable ver mReceivedAt =>
        (if S.timeDiff mReceivedAt > ageLimit ver.HotProperties then none else some entry, s)
    | .other _ => (none, s)

/-- The clean-up: what is left of the pool, and its variables at the end. `deleteMemPoolObject` steps the index back,
unless it is zero. -/
def cleanMemPool (manager : M) (mMemPool : List PoolEntry) : List PoolEntry × CleanState M D :=
  EraseLoop.loop S.examine (fun i => 0 < i) mMemPool 0 { manager }

/-- One turn of the removal by hash; a fault ends it. -/
def compareHash (transID : Bytes) (found : Except Fault Bool) (entry : PoolEntry) :
    Option PoolEntry × Except Fault Bool :=
  match found, entry.object with
  | .ok found, .transaction tx _ =>
      match memcmpEq (S.getHash tx) transID transID.length with
      | .error e => (some entry, .error e)
      | .ok true => (none, .ok true)
      | .ok false => (some entry, .ok found)
  | found, _ => (some entry, found)

def removeTransactionFromMemPool (mMemPool : List PoolEntry) (transID : Bytes) :
    Except Fault (Bool × List PoolEntry) :=
  if transID.length = 0 then .ok (false, mMemPool)
  else
    let removed := EraseLoop.loop (S.compareHash transID) (fun _ => false) mMemPool 0 (.ok false)
    removed.2.map fun found => (found, removed.1)

end PoolServices

end Gridnet
