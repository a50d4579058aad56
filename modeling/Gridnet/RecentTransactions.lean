import Gridnet.BlockModel
import Gridnet.HalvingSearch
import Gridnet.KeyIndex

/-! The cache of recent transactions: `CBlockchainManager::updateTransactionCache` and
`addTransactionToCache` over a deque of entries and two hash maps that share them, what a call should do to
them, and the maps as indexes of the deque. -/

namespace Gridnet

variable {Transaction Receipt Description : Type}

/-- What is read of a transaction, and the id of its receipt. -/
structure TransactionReadings (Transaction : Type) where
  getHash : Transaction → Bytes
  getTime : Transaction → ℕ
  getReceiptIDForTransaction : Bytes → Bytes

/-- `CTXInfo` with all that it holds. -/
structure RecentTXInfo (Transaction Receipt Description : Type) where
  mTransaction : Option Transaction
  mReceipt : Option Receipt
  mDescription : Option Description

/-- The cache over the objects in memory: a pointer is a position in `memory`, and the deque and both maps
hold pointers. -/
structure TransactionCache (Transaction Receipt Description : Type) where
  memory : List (RecentTXInfo Transaction Receipt Description)
  mRecentTransactions : List ℕ
  mRecentTransactionsMap : Bytes → Option ℕ
  mRecentTransactionsByReceiptID : Bytes → Option ℕ
  mMaxRecentTransactions : ℕ

namespace TransactionCache

variable (tools : TransactionReadings Transaction)
  (cache : TransactionCache Transaction Receipt Description)

/-! ### The two functions -/

/-- `getTransaction` of an object. -/
def transactionAt (info : ℕ) : Option Transaction := (cache.memory[info]?).bind RecentTXInfo.mTransaction

/-- The hash and the time of the transaction of an object. No object without a transaction is ever asked. -/
def hashAt (info : ℕ) : Bytes := (cache.transactionAt info).elim [] tools.getHash

def timeAt (info : ℕ) : ℕ := (cache.transactionAt info).elim 0 tools.getTime

/-- An entry is taken out of the deque and put back where its time belongs. -/
def reinsert (existingInfo txTime : ℕ) : TransactionCache Transaction Receipt Description :=
  if existingInfo ∈ cache.mRecentTransactions then
    let rest := cache.mRecentTransactions.erase existingInfo
    let insertPos := HalvingSearch.lowerBound (fun info => decide (txTime < cache.timeAt tools info)) rest
    { cache with mRecentTransactions := rest.insertIdx insertPos existingInfo }
  else cache

/-- The branch of both functions for a hash that is known: the object is changed in place. Without the locks
`updateTransactionCache` has no step for the receipt id, and `reindexed` is `false`. -/
def updateExisting (reindexed : Bool) (existingInfo : ℕ) (transaction : Transaction) (receipt : Option Receipt)
    (description : Option Description) : TransactionCache Transaction Receipt Description :=
  let info := { mTransaction := some transaction, mReceipt := receipt, mDescription := description }
  let updated := { cache with memory := cache.memory.set existingInfo info }
  let receiptID := tools.getReceiptIDForTransaction (tools.getHash transaction)
  let oldReceiptID := tools.getReceiptIDForTransaction (updated.hashAt tools existingInfo)
  let indexed :=
    if reindexed = true ∧ receiptID ≠ oldReceiptID then
      { updated with
        mRecentTransactionsByReceiptID :=
          Function.update
            (Function.update updated.mRecentTransactionsByReceiptID oldReceiptID none)
            receiptID (some existingInfo) }
    else updated
  indexed.reinsert tools existingInfo (tools.getTime transaction)

/-- A new entry, at the lower bound for a comparison of times. -/
def insertNew (compare : (time : ℕ) → Bool) (newInfo : ℕ) (txHash : Bytes) :
    TransactionCache Transaction Receipt Description :=
  let insertPos :=
    HalvingSearch.lowerBound (fun info => compare (cache.timeAt tools info)) cache.mRecentTransactions
  { cache with
    mRecentTransactions := cache.mRecentTransactions.insertIdx insertPos newInfo
    mRecentTransactionsMap := Function.update cache.mRecentTransactionsMap txHash (some newInfo)
    mRecentTransactionsByReceiptID :=
      Function.update cache.mRecentTransactionsByReceiptID (tools.getReceiptIDForTransaction txHash)
        (some newInfo) }

/-- The last entry leaves where there are too many. -/
def evictOldest : TransactionCache Transaction Receipt Description :=
  if cache.mMaxRecentTransactions < cache.mRecentTransactions.length then
    match cache.mRecentTransactions.getLast? with
    | none => cache
    | some oldestInfo =>
        let oldestTxHash := cache.hashAt tools oldestInfo
        { cache with
          mRecentTransactions := cache.mRecentTransactions.dropLast
          mRecentTransactionsMap := Function.update cache.mRecentTransactionsMap oldestTxHash none
          mRecentTransactionsByReceiptID :=
            Function.update cache.mRecentTransactionsByReceiptID
              (tools.getReceiptIDForTransaction oldestTxHash) none }
  else cache

/-- `updateTransactionCache` for an object of its caller. A null pointer and an object without a transaction
are refused. A new entry is placed by a comparison the other way, and without the locks nothing is
removed. -/
def updateTransactionCache (txInfo : ℕ) (unlocked : Bool) :
    TransactionCache Transaction Receipt Description :=
  match cache.memory[txInfo]? with
  | none => cache
  | some info =>
      match info.mTransaction with
      | none => cache
      | some transaction =>
          let txHash := tools.getHash transaction
          let txTime := tools.getTime transaction
          match cache.mRecentTransactionsMap txHash with
          | some existingInfo =>
              cache.updateExisting tools (!unlocked) existingInfo transaction info.mReceipt info.mDescription
          | none =>
              let inserted := cache.insertNew tools (fun time => decide (time < txTime)) txInfo txHash
              if unlocked then inserted else inserted.evictOldest tools

/-- `addTransactionToCache`, with the description that was made of the transaction. A null pointer for the transaction
or the receipt fails the assertion at the beginning, and nothing is changed. The locks make no difference here. -/
def addTransactionToCache (transaction : Option Transaction) (receipt : Option Receipt)
    (description : Option Description) (_unlocked : Bool) :
    TransactionCache Transaction Receipt Description :=
  match transaction, receipt with
  | some transaction, some receipt =>
      let txHash := tools.getHash transaction
      let txTime := tools.getTime transaction
      match cache.mRecentTransactionsMap txHash with
      | some existingInfo => cache.updateExisting tools true existingInfo transaction receipt description
      | none =>
          let newInfo := cache.memory.length
          let info :=
            { mTransaction := some transaction, mReceipt := some receipt, mDescription := description }
          let made := { cache with memory := cache.memory ++ [info] }
          (made.insertNew tools (fun time => decide (txTime < time)) newInfo txHash).evictOldest tools
  | _, _ => cache

end TransactionCache

/-- A call, or an object that a caller makes. -/
inductive CacheCall (Transaction Receipt Description : Type) where
  | makeInfo (info : RecentTXInfo Transaction Receipt Description)
  | update (txInfo : ℕ) (unlocked : Bool)
  | add (transaction : Option Transaction) (receipt : Option Receipt) (description : Option Description)
      (unlocked : Bool)

namespace TransactionCache

variable (tools : TransactionReadings Transaction)

def step (cache : TransactionCache Transaction Receipt Description) :
    CacheCall Transaction Receipt Description → Unit × TransactionCache Transaction Receipt Description
  | .makeInfo info => ((), { cache with memory := cache.memory ++ [info] })
  | .update txInfo unlocked => ((), cache.updateTransactionCache tools txInfo unlocked)
  | .add transaction receipt description unlocked =>
      ((), cache.addTransactionToCache tools transaction receipt description unlocked)

/-- The empty cache, over whatever objects there are. -/
def empty (memory : List (RecentTXInfo Transaction Receipt Description)) (mMaxRecentTransactions : ℕ) :
    TransactionCache Transaction Receipt Description where
  memory := memory
  mRecentTransactions := []
  mRecentTransactionsMap _ := none
  mRecentTransactionsByReceiptID _ := none
  mMaxRecentTransactions := mMaxRecentTransactions

/-! ### Coherence -/

/-- The two maps are the indexes of the deque by hash and by receipt id. -/
structure Indexed (cache : TransactionCache Transaction Receipt Description) : Prop where
  nodup : cache.mRecentTransactions.Nodup
  held : ∀ info ∈ cache.mRecentTransactions, (cache.transactionAt info).isSome = true
  byHash : IndexOf cache.mRecentTransactions (cache.hashAt tools) cache.mRecentTransactionsMap
  byReceiptID : IndexOf cache.mRecentTransactions
    (fun info => tools.getReceiptIDForTransaction (cache.hashAt tools info))
    cache.mRecentTransactionsByReceiptID

/-- The newest entry is first. -/
def Ordered (cache : TransactionCache Transaction Receipt Description) : Prop :=
  cache.mRecentTransactions.Pairwise fun newer older => cache.timeAt tools older ≤ cache.timeAt tools newer

structure Coherent (cache : TransactionCache Transaction Receipt Description) : Prop extends
    Indexed tools cache where
  ordered : Ordered tools cache
  bounded : cache.mRecentTransactions.length ≤ cache.mMaxRecentTransactions

/-- The transaction that a call is about, the contents it brings, and the object that stands for it if it is
new. -/
def subject (cache : TransactionCache Transaction Receipt Description) :
    CacheCall Transaction Receipt Description →
      Option (Transaction × RecentTXInfo Transaction Receipt Description × ℕ)
  | .makeInfo _ => none
  | .update txInfo _ =>
      (cache.memory[txInfo]?).bind fun info =>
        info.mTransaction.map fun transaction => (transaction, info, txInfo)
  | .add transaction receipt description _ =>
      transaction.bind fun transaction => receipt.map fun receipt =>
        (transaction,
          { mTransaction := some transaction, mReceipt := some receipt, mDescription := description },
          cache.memory.length)

/-- One more entry: all are kept where there is room, and otherwise all but one that none is older than. -/
def KeepsNewest (before after : TransactionCache Transaction Receipt Description) (newInfo : ℕ) : Prop :=
  if before.mRecentTransactions.length < before.mMaxRecentTransactions then
    after.mRecentTransactions.Perm (newInfo :: before.mRecentTransactions)
  else
    ∃ oldest, (oldest :: after.mRecentTransactions).Perm (newInfo :: before.mRecentTransactions) ∧
      ∀ info ∈ newInfo :: before.mRecentTransactions, after.timeAt tools oldest ≤ after.timeAt tools info

/-- What a call does: a known transaction is updated in place, a new one enters. -/
structure Serves (before : TransactionCache Transaction Receipt Description)
    (call : CacheCall Transaction Receipt Description)
    (after : TransactionCache Transaction Receipt Description) : Prop where
  idle : subject before call = none → after.mRecentTransactions = before.mRecentTransactions
  inPlace : ∀ transaction info newInfo existingInfo,
    subject before call = some (transaction, info, newInfo) →
      before.mRecentTransactionsMap (tools.getHash transaction) = some existingInfo →
        after.memory = before.memory.set existingInfo info ∧
          after.mRecentTransactions.Perm before.mRecentTransactions
  enters : ∀ transaction info newInfo, subject before call = some (transaction, info, newInfo) →
    before.mRecentTransactionsMap (tools.getHash transaction) = none → KeepsNewest tools before after newInfo

/-- A call serves its transaction and leaves the cache coherent. -/
def StaysCoherent (cache : TransactionCache Transaction Receipt Description)
    (call : CacheCall Transaction Receipt Description) : Prop :=
  Coherent tools (step tools cache call).2 ∧ Serves tools cache call (step tools cache call).2

/-- The calls that the comparison the other way does not harm: a new transaction only enters through
`updateTransactionCache` while the newer half of the entries, with the middle one, has its very time, and
without the locks only where there is room. -/
def Harmless (cache : TransactionCache Transaction Receipt Description) :
    CacheCall Transaction Receipt Description → Prop
  | .update txInfo unlocked =>
      ∀ transaction, cache.transactionAt txInfo = some transaction →
        cache.mRecentTransactionsMap (tools.getHash transaction) = none →
          (∀ info ∈ cache.mRecentTransactions.take (cache.mRecentTransactions.length / 2 + 1),
            cache.timeAt tools info = tools.getTime transaction) ∧
          (unlocked = true → cache.mRecentTransactions.length < cache.mMaxRecentTransactions)
  | _ => True

variable {tools} {cache : TransactionCache Transaction Receipt Description}

/-! ### Objects in memory -/

theorem lt_of_held {info : ℕ} (hheld : (cache.transactionAt info).isSome = true) :
    info < cache.memory.length := by
  by_contra hle
  simp [transactionAt, List.getElem?_eq_none (Nat.le_of_not_lt hle)] at hheld

/-- One more object changes none that are there. -/
theorem transactionAt_append {made : TransactionCache Transaction Receipt Description}
    {info : RecentTXInfo Transaction Receipt Description} (hmade : made.memory = cache.memory ++ [info]) {i : ℕ}
    (hi : i < cache.memory.length) : made.transactionAt i = cache.transactionAt i := by
  simp [transactionAt, hmade, List.getElem?_append_left hi]

theorem transactionAt_append_self {made : TransactionCache Transaction Receipt Description}
    {info : RecentTXInfo Transaction Receipt Description} (hmade : made.memory = cache.memory ++ [info]) :
    made.transactionAt cache.memory.length = info.mTransaction := by
  simp [transactionAt, hmade]

theorem transactionAt_set_self {updated : TransactionCache Transaction Receipt Description}
    {info : RecentTXInfo Transaction Receipt Description} {i : ℕ}
    (hset : updated.memory = cache.memory.set i info) (hi : i < cache.memory.length) :
    updated.transactionAt i = info.mTransaction := by
  simp [transactionAt, hset, hi]

theorem transactionAt_set_of_ne {updated : TransactionCache Transaction Receipt Description}
    {info : RecentTXInfo Transaction Receipt Description} {i j : ℕ}
    (hset : updated.memory = cache.memory.set i info) (hne : j ≠ i) :
    updated.transactionAt j = cache.transactionAt j := by
  simp [transactionAt, hset, List.getElem?_set_ne (Ne.symm hne)]

/-- What is read of an object depends on its transaction alone. -/
theorem hashAt_congr {cache' : TransactionCache Transaction Receipt Description} {i j : ℕ}
    (hsame : cache'.transactionAt i = cache.transactionAt j) :
    cache'.hashAt tools i = cache.hashAt tools j := by
  unfold hashAt
  rw [hsame]

theorem timeAt_congr {cache' : TransactionCache Transaction Receipt Description} {i j : ℕ}
    (hsame : cache'.transactionAt i = cache.transactionAt j) :
    cache'.timeAt tools i = cache.timeAt tools j := by
  unfold timeAt
  rw [hsame]

theorem hashAt_of_some {i : ℕ} {transaction : Transaction}
    (hheld : cache.transactionAt i = some transaction) :
    cache.hashAt tools i = tools.getHash transaction := by
  simp [hashAt, hheld]

theorem timeAt_of_some {i : ℕ} {transaction : Transaction}
    (hheld : cache.transactionAt i = some transaction) :
    cache.timeAt tools i = tools.getTime transaction := by
  simp [timeAt, hheld]

/-! ### The indexes -/

/-- The indexes depend on the transactions of the entries alone. -/
theorem Indexed.congr {cache' : TransactionCache Transaction Receipt Description}
    (hindexed : Indexed tools cache)
    (hdeque : cache'.mRecentTransactions.Perm cache.mRecentTransactions)
    (hmap : cache'.mRecentTransactionsMap = cache.mRecentTransactionsMap)
    (hreceipts : cache'.mRecentTransactionsByReceiptID = cache.mRecentTransactionsByReceiptID)
    (hheld : ∀ info ∈ cache.mRecentTransactions, (cache'.transactionAt info).isSome = true)
    (hkeys : ∀ info ∈ cache.mRecentTransactions, cache'.hashAt tools info = cache.hashAt tools info) :
    Indexed tools cache' where
  nodup := hdeque.nodup_iff.mpr hindexed.nodup
  held info hinfo := hheld info (hdeque.mem_iff.mp hinfo)
  byHash := by
    rw [hmap]
    exact (hindexed.byHash.congr hkeys).perm hdeque.symm
  byReceiptID := by
    rw [hreceipts]
    refine (hindexed.byReceiptID.congr ?_).perm hdeque.symm
    intro info hinfo
    rw [hkeys info hinfo]

variable (tools cache) in
theorem insertNew_perm (compare : ℕ → Bool) (newInfo : ℕ) (txHash : Bytes) :
    (cache.insertNew tools compare newInfo txHash).mRecentTransactions.Perm
      (newInfo :: cache.mRecentTransactions) :=
  List.perm_insertIdx newInfo cache.mRecentTransactions (HalvingSearch.lowerBound_le _ _)

/-- Wherever a new entry is placed, the indexes follow. -/
theorem Indexed.insertNew (hindexed : Indexed tools cache)
    (hinjective : Function.Injective tools.getReceiptIDForTransaction) (compare : ℕ → Bool) {newInfo : ℕ}
    {transaction : Transaction} (hnew : cache.transactionAt newInfo = some transaction)
    (hfree : cache.mRecentTransactionsMap (tools.getHash transaction) = none) :
    Indexed tools (cache.insertNew tools compare newInfo (tools.getHash transaction)) := by
  have hperm := insertNew_perm tools cache compare newInfo (tools.getHash transaction)
  have hkey : cache.hashAt tools newInfo = tools.getHash transaction := hashAt_of_some hnew
  have hfree' : cache.mRecentTransactionsMap (cache.hashAt tools newInfo) = none := by rw [hkey, hfree]
  have hfreeReceipt : cache.mRecentTransactionsByReceiptID
      (tools.getReceiptIDForTransaction (cache.hashAt tools newInfo)) = none := by
    apply Option.eq_none_iff_forall_ne_some.mpr
    intro info hinfo
    obtain ⟨hmem, hreceipt⟩ := hindexed.byReceiptID.some_iff.mp hinfo
    have hfound := hindexed.byHash.found hmem
    rw [hinjective hreceipt, hfree'] at hfound
    cases hfound
  refine ⟨?_, ?_, ?_, ?_⟩
  · rw [hperm.nodup_iff, List.nodup_cons]
    exact ⟨hindexed.byHash.notMem_of_none hfree', hindexed.nodup⟩
  · intro info hinfo
    show (cache.transactionAt info).isSome = true
    rcases List.mem_cons.mp (hperm.mem_iff.mp hinfo) with rfl | hinfo
    · rw [hnew]
      rfl
    · exact hindexed.held info hinfo
  · have hcons := hindexed.byHash.cons hfree'
    rw [hkey] at hcons
    exact hcons.perm hperm.symm
  · have hcons := hindexed.byReceiptID.cons hfreeReceipt
    rw [hkey] at hcons
    exact hcons.perm hperm.symm

/-! ### The oldest entry -/

theorem evictOldest_of_le (hroom : cache.mRecentTransactions.length ≤ cache.mMaxRecentTransactions) :
    cache.evictOldest tools = cache := by
  unfold evictOldest
  rw [if_neg (Nat.not_lt.mpr hroom)]

variable (tools) in
/-- Where there are too many entries, the last one leaves. -/
theorem evictOldest_of_lt (hfull : cache.mMaxRecentTransactions < cache.mRecentTransactions.length) :
    ∃ oldest, cache.mRecentTransactions = cache.mRecentTransactions.dropLast ++ [oldest] ∧
      cache.evictOldest tools =
        { cache with
          mRecentTransactions := cache.mRecentTransactions.dropLast
          mRecentTransactionsMap :=
            Function.update cache.mRecentTransactionsMap (cache.hashAt tools oldest) none
          mRecentTransactionsByReceiptID :=
            Function.update cache.mRecentTransactionsByReceiptID
              (tools.getReceiptIDForTransaction (cache.hashAt tools oldest)) none } := by
  have hne : cache.mRecentTransactions ≠ [] := List.ne_nil_of_length_pos (by omega)
  have hlast := List.getLast?_eq_getLast_of_ne_nil hne
  refine ⟨cache.mRecentTransactions.getLast hne, (List.dropLast_concat_getLast hne).symm, ?_⟩
  unfold evictOldest
  rw [if_pos hfull, hlast]

theorem Indexed.evictOldest (hindexed : Indexed tools cache) : Indexed tools (cache.evictOldest tools) := by
  rcases Nat.lt_or_ge cache.mMaxRecentTransactions cache.mRecentTransactions.length with hfull | hroom
  · obtain ⟨oldest, hsplit, hevict⟩ := evictOldest_of_lt tools hfull
    have hperm : cache.mRecentTransactions.Perm (oldest :: cache.mRecentTransactions.dropLast) := by
      conv_lhs => rw [hsplit]
      exact List.perm_append_singleton oldest _
    have hnodup := hperm.nodup_iff.mp hindexed.nodup
    rw [List.nodup_cons] at hnodup
    rw [hevict]
    refine ⟨hnodup.2, ?_, ?_, ?_⟩
    · intro info hinfo
      exact hindexed.held info (List.dropLast_subset _ hinfo)
    · exact (hindexed.byHash.perm hperm).of_cons hnodup.1
    · exact (hindexed.byReceiptID.perm hperm).of_cons hnodup.1
  · rw [evictOldest_of_le hroom]
    exact hindexed

end TransactionCache

end Gridnet
