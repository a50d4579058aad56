import Gridnet.BlockIdentity
import Gridnet.Machine

/-! The contents of a block. `addTransaction`, `addVerifiable` and `addReceipt` list an identifier and count it before
the trie has answered; the list, the counter and the trie stay together exactly where the trie adds a node each
time. A block whose lists and counters agree is decoded with the counts of its header. -/

namespace Gridnet

open Ber ASN1_Tag

variable {Trie : Type}

/-! ### Tries -/

/-- `CTrieDB::eResult` -/
inductive eResult where
  | added
  | updated
  | failure
  deriving DecidableEq, Repr

/-- What a block uses of a node that it finds: its types and its packed form. -/
structure ContentNode where
  type : ℕ
  subType : ℕ
  packedData : Bytes
  deriving DecidableEq, Repr

/-- What blocks use of the tries of their contents beside `ChainServices`: insertion, look-up, the stored data of a
block by the header, and the hash of what a packed object is instantiated as. -/
structure ContentServices (Trie : Type) extends ChainServices Trie where
  addNodeExt : eTrieID → (hash packedData : Bytes) → Trie → eResult × Trie
  findNodeByFullID : eTrieID → Trie → Bytes → Option ContentNode
  getBlockDataByHash : CBlockHeader Trie → Bytes
  getHash : eTrieID → (packedData : Bytes) → Bytes

/-- The documented behaviour: a trie is a finite map from hashes to nodes, an insertion may fail, and a trie that was
just opened holds nothing in memory. -/
structure FiniteMaps (S : ContentServices Trie) : Prop where
  nodup : ∀ db, (S.getKnownNodeIDs db).Nodup
  added : ∀ {trie hash packedData db db'}, S.addNodeExt trie hash packedData db = (.added, db') →
    hash ∉ S.getKnownNodeIDs db ∧ (S.getKnownNodeIDs db').Perm (hash :: S.getKnownNodeIDs db)
  updated : ∀ {trie hash packedData db db'}, S.addNodeExt trie hash packedData db = (.updated, db') →
    hash ∈ S.getKnownNodeIDs db ∧ (S.getKnownNodeIDs db').Perm (S.getKnownNodeIDs db)
  failure : ∀ {trie hash packedData db db'}, S.addNodeExt trie hash packedData db = (.failure, db') →
    (S.getKnownNodeIDs db').Perm (S.getKnownNodeIDs db)
  found : ∀ {trie db hash node}, S.findNodeByFullID trie db hash = some node → S.getHash trie node.packedData = hash
  addNode : ∀ {trie packedData db db'}, S.addNode trie packedData db = some db' →
    S.getHash trie packedData ∉ S.getKnownNodeIDs db →
      (S.getKnownNodeIDs db').Perm (S.getHash trie packedData :: S.getKnownNodeIDs db)
  opened : ∀ {trie rootHash trackNodes throwOnError loadRootsFromSS db},
    S.newTrieDB trie rootHash trackNodes throwOnError loadRootsFromSS = .ok db → S.getKnownNodeIDs db = []
  trackKnownNodes : ∀ db, S.getKnownNodeIDs (S.trackKnownNodes db) = S.getKnownNodeIDs db
  setIsTrieFullyInRAM : ∀ db, S.getKnownNodeIDs (S.setIsTrieFullyInRAM db) = S.getKnownNodeIDs db

/-! ### Adding -/

/-- What is added to a block: the hash of an object and its packed form. -/
structure ContentItem where
  hash : Bytes
  hash_length : hash.length = 32
  packedData : Bytes
  deriving DecidableEq, Repr

namespace CBlockHeader

variable (S : ContentServices Trie)

/-- The answer of the header to a trie: only a failure is reported. -/
def accepted (result : eResult) : Bool := decide (result ≠ .failure)

def addTransaction (header : CBlockHeader Trie) (trans : ContentItem) : Bool × CBlockHeader Trie :=
  let (result, mTransactionsDB) := S.addNodeExt .transactions trans.hash trans.packedData header.mTransactionsDB
  let fields := Function.update header.fields .mTransactionsRootID (S.getPerspective mTransactionsDB)
  let fields := Function.update fields .mNrOfTransactions (fields .mNrOfTransactions + 1 : ℕ)
  (accepted result, { header with mTransactionsDB, fields })

def addVerifiable (header : CBlockHeader Trie) (verifiable : ContentItem) : Bool × CBlockHeader Trie :=
  let fields := Function.update header.fields .mNrOfVerifiables (header.fields .mNrOfVerifiables + 1 : ℕ)
  let (res, mVerifiablesDB) := S.addNodeExt .verifiables verifiable.hash verifiable.packedData header.mVerifiablesDB
  let fields := Function.update fields .mVerifiablesRootID (S.getPerspective mVerifiablesDB)
  (accepted res, { header with mVerifiablesDB, fields })

def addReceipt (header : CBlockHeader Trie) (receipt : ContentItem) : Bool × CBlockHeader Trie :=
  let fields := Function.update header.fields .mNrOfReceipts (header.fields .mNrOfReceipts + 1 : ℕ)
  let (res, mReceiptsDB) := S.addNodeExt .receipts receipt.hash receipt.packedData header.mReceiptsDB
  let fields := Function.update fields .mReceiptsRootID (S.getPerspective mReceiptsDB)
  (accepted res, { header with mReceiptsDB, fields })

end CBlockHeader

namespace CBlock

variable (S : ContentServices Trie)

/-- `isValid` is what the transaction answers once it is prepared. -/
def addTransaction (block : CBlock Trie) (transaction : ContentItem) (isValid : Bool) : Bool × CBlock Trie :=
  if block.mBlockHeader.mIsKeyBlock then (false, block)
  else if !isValid then (false, block)
  else
    let mTransactionIDs := block.mTransactionIDs ++ [transaction.hash]
    let (result, mBlockHeader) := block.mBlockHeader.addTransaction S transaction
    (result, { block with mTransactionIDs, mBlockHeader })

def addVerifiable (block : CBlock Trie) (verifiable : ContentItem) : Bool × CBlock Trie :=
  let mVerifiablesIDs := block.mVerifiablesIDs ++ [verifiable.hash]
  let (result, mBlockHeader) := block.mBlockHeader.addVerifiable S verifiable
  (result, { block with mVerifiablesIDs, mBlockHeader })

def addReceipt (block : CBlock Trie) (receipt : ContentItem) : Bool × CBlock Trie :=
  let mReceiptsIDs := block.mReceiptsIDs ++ [receipt.hash]
  let (result, mBlockHeader) := block.mBlockHeader.addReceipt S receipt
  (result, { block with mReceiptsIDs, mBlockHeader })

/-- A call of one of the three. -/
inductive ContentCall where
  | addTransaction (transaction : ContentItem) (isValid : Bool)
  | addVerifiable (verifiable : ContentItem)
  | addReceipt (receipt : ContentItem)
  deriving DecidableEq, Repr

def contentCall (block : CBlock Trie) : ContentCall → Bool × CBlock Trie
  | .addTransaction transaction isValid => block.addTransaction S transaction isValid
  | .addVerifiable verifiable => block.addVerifiable S verifiable
  | .addReceipt receipt => block.addReceipt S receipt

/-! ### Agreement -/

/-- A list without duplicates, as long as its counter says and as the trie has entries. -/
structure Counted (S : ContentServices Trie) (ids : List Bytes) (counter : ℕ) (db : Trie) : Prop where
  nodup : ids.Nodup
  counted : counter = ids.length
  entries : (S.getKnownNodeIDs db).length = ids.length

/-- They are the hashes that the trie holds. -/
structure Listed (S : ContentServices Trie) (ids : List Bytes) (counter : ℕ) (db : Trie) : Prop
    extends Counted S ids counter db where
  hashes : ∀ id ∈ ids, id.length = 32
  held : ids.Perm (S.getKnownNodeIDs db)

/-- `P` holds of the three lists of a block with their counters and tries. -/
structure Lists (P : List Bytes → ℕ → Trie → Prop) (block : CBlock Trie) : Prop where
  transactions : P block.mTransactionIDs (block.mBlockHeader.fields .mNrOfTransactions)
    block.mBlockHeader.mTransactionsDB
  verifiables : P block.mVerifiablesIDs (block.mBlockHeader.fields .mNrOfVerifiables)
    block.mBlockHeader.mVerifiablesDB
  receipts : P block.mReceiptsIDs (block.mBlockHeader.fields .mNrOfReceipts) block.mBlockHeader.mReceiptsDB

theorem Lists.mono {P Q : List Bytes → ℕ → Trie → Prop}
    (himp : ∀ ids counter db, P ids counter db → Q ids counter db) {block : CBlock Trie} (hlists : Lists P block) : Lists Q block :=
  ⟨himp _ _ _ hlists.transactions, himp _ _ _ hlists.verifiables, himp _ _ _ hlists.receipts⟩

/-- The lists, the counters and the entries of the tries are the same. -/
structure SameContents (block block' : CBlock Trie) : Prop where
  transactionIDs : block.mTransactionIDs = block'.mTransactionIDs
  verifiablesIDs : block.mVerifiablesIDs = block'.mVerifiablesIDs
  receiptsIDs : block.mReceiptsIDs = block'.mReceiptsIDs
  nrOfTransactions : block.mBlockHeader.fields .mNrOfTransactions = block'.mBlockHeader.fields .mNrOfTransactions
  nrOfVerifiables : block.mBlockHeader.fields .mNrOfVerifiables = block'.mBlockHeader.fields .mNrOfVerifiables
  nrOfReceipts : block.mBlockHeader.fields .mNrOfReceipts = block'.mBlockHeader.fields .mNrOfReceipts
  transactions : (S.getKnownNodeIDs block.mBlockHeader.mTransactionsDB).length =
    (S.getKnownNodeIDs block'.mBlockHeader.mTransactionsDB).length
  verifiables : (S.getKnownNodeIDs block.mBlockHeader.mVerifiablesDB).length =
    (S.getKnownNodeIDs block'.mBlockHeader.mVerifiablesDB).length
  receipts : (S.getKnownNodeIDs block.mBlockHeader.mReceiptsDB).length =
    (S.getKnownNodeIDs block'.mBlockHeader.mReceiptsDB).length

/-- The call leaves list, counter and trie in agreement, and all three as they were where it returns false. -/
def Kept (block : CBlock Trie) (call : ContentCall) : Prop :=
  Lists (Counted S) (block.contentCall S call).2 ∧
    ((block.contentCall S call).1 = false → SameContents S (block.contentCall S call).2 block)

/-- A transaction that is refused before anything is done, or an insertion that adds a node. -/
def Added (block : CBlock Trie) : ContentCall → Prop
  | .addTransaction transaction isValid =>
      block.mBlockHeader.mIsKeyBlock = true ∨ isValid = false ∨
        (S.addNodeExt .transactions transaction.hash transaction.packedData
          block.mBlockHeader.mTransactionsDB).1 = .added
  | .addVerifiable verifiable =>
      (S.addNodeExt .verifiables verifiable.hash verifiable.packedData block.mBlockHeader.mVerifiablesDB).1 = .added
  | .addReceipt receipt =>
      (S.addNodeExt .receipts receipt.hash receipt.packedData block.mBlockHeader.mReceiptsDB).1 = .added

variable {S}

/-- One more hash is listed and counted; this is right exactly where the trie has added it. -/
theorem listed_concat_iff (hmaps : FiniteMaps S) {ids : List Bytes} {counter : ℕ} {db : Trie}
    (hlisted : Listed S ids counter db) (trie : eTrieID) (item : ContentItem) :
    (Counted S (ids ++ [item.hash]) (counter + 1) (S.addNodeExt trie item.hash item.packedData db).2 ↔
        (S.addNodeExt trie item.hash item.packedData db).1 = .added) ∧
      ((S.addNodeExt trie item.hash item.packedData db).1 = .added →
        Listed S (ids ++ [item.hash]) (counter + 1) (S.addNodeExt trie item.hash item.packedData db).2) := by
  have hshort : ∀ {db'}, (S.getKnownNodeIDs db').Perm (S.getKnownNodeIDs db) →
      ¬ Counted S (ids ++ [item.hash]) (counter + 1) db' := by
    intro db' hperm hmore
    have hentries := hmore.entries
    rw [hperm.length_eq, hlisted.entries, List.length_append, List.length_singleton] at hentries
    omega
  cases hinsert : S.addNodeExt trie item.hash item.packedData db with
  | mk result db' =>
      cases result with
      | added =>
          obtain ⟨hnew, hperm⟩ := hmaps.added hinsert
          have hheld : (ids ++ [item.hash]).Perm (S.getKnownNodeIDs db') :=
            (List.perm_append_singleton _ _).trans ((hlisted.held.cons _).trans hperm.symm)
          have hmore : Listed S (ids ++ [item.hash]) (counter + 1) db' :=
            { nodup := by
                rw [← List.concat_eq_append, List.nodup_concat]
                exact ⟨fun hmem => hnew (hlisted.held.mem_iff.mp hmem), hlisted.nodup⟩
              counted := by rw [List.length_append, List.length_singleton, hlisted.counted]
              entries := hheld.length_eq.symm
              hashes := by
                intro id hid
                rcases List.mem_append.mp hid with hold | hlast
                · exact hlisted.hashes id hold
                · rw [List.mem_singleton] at hlast
                  rw [hlast]
                  exact item.hash_length
              held := hheld }
          exact ⟨iff_of_true hmore.toCounted rfl, fun _ => hmore⟩
      | updated => exact ⟨iff_of_false (hshort (hmaps.updated hinsert).2) nofun, nofun⟩
      | failure => exact ⟨iff_of_false (hshort (hmaps.failure hinsert)) nofun, nofun⟩

theorem SameContents.refl (block : CBlock Trie) : SameContents S block block :=
  ⟨rfl, rfl, rfl, rfl, rfl, rfl, rfl, rfl, rfl⟩

/-- A call that inserts into one trie and leaves the other two lists as they are. -/
theorem kept_iff_of_insertion (hmaps : FiniteMaps S) (block : CBlock Trie) (call : ContentCall)
    (others : (List Bytes → ℕ → Trie → Prop) → Prop) (hothers : others (Listed S)) (hcounted : others (Counted S))
    {ids : List Bytes} {counter : ℕ} {db : Trie} (hlisted : Listed S ids counter db) (trie : eTrieID)
    (item : ContentItem)
    (hafter : ∀ P, Lists P (block.contentCall S call).2 ↔
      others P ∧ P (ids ++ [item.hash]) (counter + 1) (S.addNodeExt trie item.hash item.packedData db).2)
    (hresult : (block.contentCall S call).1 =
      CBlockHeader.accepted (S.addNodeExt trie item.hash item.packedData db).1) :
    (Kept S block call ↔ (S.addNodeExt trie item.hash item.packedData db).1 = .added) ∧
      ((S.addNodeExt trie item.hash item.packedData db).1 = .added →
        Lists (Listed S) (block.contentCall S call).2) := by
  obtain ⟨hright, hlists⟩ := listed_concat_iff hmaps hlisted trie item
  refine ⟨⟨fun hkept => hright.mp ((hafter _).mp hkept.1).2, fun hadded => ⟨?_, fun hfalse => ?_⟩⟩,
    fun hadded => (hafter _).mpr ⟨hothers, hlists hadded⟩⟩
  · exact (hafter _).mpr ⟨hcounted, hright.mpr hadded⟩
  · rw [hresult, hadded] at hfalse
    cases hfalse

/-- What a call keeps, and that it keeps the lists those of the tries. -/
theorem kept_iff_added (hmaps : FiniteMaps S) {block : CBlock Trie} (hlists : Lists (Listed S) block)
    (call : ContentCall) :
    (Kept S block call ↔ Added S block call) ∧
      (Added S block call → Lists (Listed S) (block.contentCall S call).2) := by
  have hcounted : Lists (Counted S) block := hlists.mono fun _ _ _ => Listed.toCounted
  cases call with
  | addTransaction transaction isValid =>
      by_cases hrefused : block.mBlockHeader.mIsKeyBlock = true ∨ isValid = false
      · have hsame : block.contentCall S (.addTransaction transaction isValid) = (false, block) := by
          rcases hrefused with hkey | hinvalid
          · exact if_pos hkey
          · simp [contentCall, addTransaction, hinvalid]
        refine ⟨iff_of_true ?_ ?_, fun _ => by rw [hsame]; exact hlists⟩
        · unfold Kept
          rw [hsame]
          exact ⟨hcounted, fun _ => .refl block⟩
        · exact hrefused.imp_right .inl
      · rw [not_or, Bool.not_eq_true, Bool.not_eq_false] at hrefused
        obtain ⟨hregular, hvalid⟩ := hrefused
        subst hvalid
        have hinserted := kept_iff_of_insertion hmaps block (.addTransaction transaction true)
          (fun P => P block.mVerifiablesIDs (block.mBlockHeader.fields .mNrOfVerifiables)
              block.mBlockHeader.mVerifiablesDB ∧
            P block.mReceiptsIDs (block.mBlockHeader.fields .mNrOfReceipts) block.mBlockHeader.mReceiptsDB)
          ⟨hlists.verifiables, hlists.receipts⟩ ⟨hcounted.verifiables, hcounted.receipts⟩
          hlists.transactions .transactions transaction
        have hcall : block.contentCall S (.addTransaction transaction true) =
            (_, { block with
              mTransactionIDs := block.mTransactionIDs ++ [transaction.hash]
              mBlockHeader := (block.mBlockHeader.addTransaction S transaction).2 }) :=
          (if_neg (by simp [hregular])).trans (if_neg (by decide))
        rw [hcall] at hinserted ⊢
        simpa [Added, hregular] using hinserted
          (fun P => ⟨fun h => ⟨⟨h.verifiables, h.receipts⟩, h.transactions⟩, fun h => ⟨h.2, h.1.1, h.1.2⟩⟩) rfl
  | addVerifiable verifiable =>
      exact kept_iff_of_insertion hmaps block (.addVerifiable verifiable)
        (fun P => P block.mTransactionIDs (block.mBlockHeader.fields .mNrOfTransactions)
            block.mBlockHeader.mTransactionsDB ∧
          P block.mReceiptsIDs (block.mBlockHeader.fields .mNrOfReceipts) block.mBlockHeader.mReceiptsDB)
        ⟨hlists.transactions, hlists.receipts⟩ ⟨hcounted.transactions, hcounted.receipts⟩
        hlists.verifiables .verifiables verifiable
        (fun P => ⟨fun h => ⟨⟨h.transactions, h.receipts⟩, h.verifiables⟩, fun h => ⟨h.1.1, h.2, h.1.2⟩⟩) rfl
  | addReceipt receipt =>
      exact kept_iff_of_insertion hmaps block (.addReceipt receipt)
        (fun P => P block.mTransactionIDs (block.mBlockHeader.fields .mNrOfTransactions)
            block.mBlockHeader.mTransactionsDB ∧
          P block.mVerifiablesIDs (block.mBlockHeader.fields .mNrOfVerifiables) block.mBlockHeader.mVerifiablesDB)
        ⟨hlists.transactions, hlists.verifiables⟩ ⟨hcounted.transactions, hcounted.verifiables⟩
        hlists.receipts .receipts receipt
        (fun P => ⟨fun h => ⟨⟨h.transactions, h.verifiables⟩, h.receipts⟩, fun h => ⟨h.1.1, h.1.2, h.2⟩⟩) rfl

end CBlock

end Gridnet
