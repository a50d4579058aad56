import Gridnet.BlockContents
import Gridnet.HeaderRoundTrip

/-! The counts of a decoded block. `CBlock::getPackedData` writes the objects that the lists of a block name;
`instantiateBlock` adds them to new tries and takes the lists from these, so that a block whose lists and counters
agree comes back with the counts of its header. -/

namespace Gridnet

open Ber ASN1_Tag

variable {Trie : Type}

/-! ### Packing -/

namespace CBlockHeader

variable (S : ContentServices Trie)

def trieDB (header : CBlockHeader Trie) : eTrieID → Trie
  | .transactions => header.mTransactionsDB
  | .receipts => header.mReceiptsDB
  | .verifiables => header.mVerifiablesDB
  | .state => header.mTransactionsDB

/-- `loadTries` without data, which it takes from the storage. -/
def loadStoredTries (header : CBlockHeader Trie) : Bool × CBlockHeader Trie :=
  if header.mIsKeyBlock then (false, header)
  else header.loadTries S.toChainServices (S.getBlockDataByHash header)

/-- The node that a trie holds under this hash, if it is one of these types. -/
def getNode (trie : eTrieID) (ofType : ContentNode → Bool) (header : CBlockHeader Trie) (id : Bytes) :
    Option ContentNode × CBlockHeader Trie :=
  if id.length = 0 then (none, header)
  else
    let loaded := if header.mTriesLoaded then (true, header) else header.loadStoredTries S
    if !loaded.1 then (none, loaded.2)
    else ((S.findNodeByFullID trie (loaded.2.trieDB trie) id).filter ofType, loaded.2)

def getTransaction (header : CBlockHeader Trie) (transactionID : Bytes) : Option ContentNode × CBlockHeader Trie :=
  header.getNode S .transactions (fun node => node.type == 3 && node.subType == 2) transactionID

/-- The source compares the negated type, so that no node is refused. -/
def getReceipt (header : CBlockHeader Trie) (receiptID : Bytes) : Option ContentNode × CBlockHeader Trie :=
  header.getNode S .receipts (fun node => !((if node.type = 0 then 1 else 0) == 3 && node.subType == 3)) receiptID

def getVerifiable (header : CBlockHeader Trie) (verifiableID : Bytes) : Option ContentNode × CBlockHeader Trie :=
  header.getNode S .verifiables (fun node => node.type == 3 && node.subType == 4) verifiableID

end CBlockHeader

namespace CBlock

/-- The loop over the identifiers of one list: an identifier of another size than a hash is skipped or ends it. -/
def packNodes (getNode : CBlockHeader Trie → Bytes → Option ContentNode × CBlockHeader Trie) (skip : Bool) :
    List Bytes → CBlockHeader Trie → Option (List Bytes) × CBlockHeader Trie
  | [], header => (some [], header)
  | id :: ids, header =>
      if id.length ≠ 32 then
        if skip then packNodes getNode skip ids header else (none, header)
      else
        match getNode header id with
        | (none, header) => (none, header)
        | (some node, header) =>
            let (rest, header) := packNodes getNode skip ids header
            (rest.map (node.packedData :: ·), header)

/-- The objects of a sequence. -/
def octets (objects : List Bytes) : Bytes := objects.flatMap (addObject OCTET_STRING UNIVERSAL)

def sequence (objects : List Bytes) : Bytes := cons SEQUENCE UNIVERSAL (octets objects)

variable (S : ContentServices Trie)

/-- The lists in the order in which they are packed; a key block has no sequence of transactions. -/
def packContents (block : CBlock Trie) (header : CBlockHeader Trie) : Option Bytes × CBlockHeader Trie :=
  let (transactions, header) :=
    if header.mIsKeyBlock then (some [], header)
    else
      let (objects, header) := packNodes (CBlockHeader.getTransaction S) true block.mTransactionIDs header
      (objects.map sequence, header)
  match transactions with
  | none => (none, header)
  | some transactions =>
      match packNodes (CBlockHeader.getReceipt S) false block.mReceiptsIDs header with
      | (none, header) => (none, header)
      | (some receipts, header) =>
          let (verifiables, header) := packNodes (CBlockHeader.getVerifiable S) false block.mVerifiablesIDs header
          (verifiables.map fun verifiables => transactions ++ (sequence receipts ++ sequence verifiables), header)

/-- `getPackedData`: whether it succeeded, what it leaves in `BERData`, and the block. -/
def getPackedData (block : CBlock Trie) (BERData : Bytes) (includeSig : Bool) : Bool × Bytes × CBlock Trie :=
  if !block.mBlockHeader.validate true then (false, BERData, block)
  else
    match block.mBlockHeader.getPackedData S.toChainServices [] includeSig with
    | (false, _, mBlockHeader) => (false, BERData, { block with mBlockHeader })
    | (true, headerPackedData, mBlockHeader) =>
        let isKey := mBlockHeader.mIsKeyBlock
        match block.packContents S mBlockHeader with
        | (none, mBlockHeader) => (false, BERData, { block with mBlockHeader })
        | (some contents, mBlockHeader) =>
            (true,
              cons (if isKey then eBERObjectType.keyBlock else eBERObjectType.regularBlock) PRIVATE
                (encodeSmall block.mVersion ++ (addObject OCTET_STRING UNIVERSAL headerPackedData ++ contents)),
              { block with mBlockHeader })

/-! ### What is packed -/

variable {S}

theorem getNode_spec (hmaps : FiniteMaps S) {trie : eTrieID} {ofType : ContentNode → Bool}
    {header header' : CBlockHeader Trie} {id : Bytes} {node : ContentNode}
    (hget : header.getNode S trie ofType id = (some node, header')) : S.getHash trie node.packedData = id := by
  unfold CBlockHeader.getNode at hget
  by_cases hempty : id.length = 0
  · rw [if_pos hempty] at hget
    cases hget
  · rw [if_neg hempty] at hget
    generalize (if header.mTriesLoaded then (true, header) else header.loadStoredTries S) = loaded at hget
    dsimp only at hget
    cases hloaded : loaded.1 with
    | false =>
        rw [hloaded, if_pos (by decide)] at hget
        cases hget
    | true =>
        rw [hloaded, if_neg (by decide)] at hget
        exact hmaps.found (Option.filter_eq_some_iff.mp (Prod.mk.inj hget).1).1

/-- The objects that are packed are those that the identifiers name. -/
theorem packNodes_spec {trie : eTrieID}
    {getNode : CBlockHeader Trie → Bytes → Option ContentNode × CBlockHeader Trie}
    (hget : ∀ {header header' id node}, getNode header id = (some node, header') →
      S.getHash trie node.packedData = id)
    {skip : Bool} {ids : List Bytes} (hhashes : ∀ id ∈ ids, id.length = 32) {header header' : CBlockHeader Trie}
    {objects : List Bytes} (hpack : packNodes getNode skip ids header = (some objects, header')) :
    objects.map (S.getHash trie) = ids := by
  induction ids generalizing header objects header' with
  | nil =>
      cases hpack
      rfl
  | cons id ids ih =>
      rw [packNodes, if_neg (not_not.mpr (hhashes id List.mem_cons_self))] at hpack
      split at hpack
      · cases hpack
      · next node after hnode =>
          obtain ⟨rest, hrest, rfl⟩ := Option.map_eq_some_iff.mp (Prod.mk.inj hpack).1
          have hothers : packNodes getNode skip ids after =
              (some rest, (packNodes getNode skip ids after).2) := Prod.ext hrest rfl
          rw [List.map_cons, hget hnode, ih (fun id' hid' => hhashes id' (List.mem_cons_of_mem id hid')) hothers]

/-! ### What is loaded -/

theorem length_le_octets {objects : List Bytes} {object : Bytes} (hmem : object ∈ objects) :
    object.length ≤ (octets objects).length := by
  have hin : addObject OCTET_STRING UNIVERSAL object ∈ objects.map (addObject OCTET_STRING UNIVERSAL) :=
    List.mem_map_of_mem hmem
  rw [octets, List.flatMap_def]
  exact (length_le_addObject _ _ _).trans (List.sublist_flatten_of_mem hin).length_le

theorem length_objects_le (objects : List Bytes) : objects.length ≤ (octets objects).length := by
  induction objects with
  | nil => exact le_rfl
  | cons object objects ih =>
      have htag := length_encodeTag shortTag_octets
      rw [octets, List.flatMap_cons, List.length_append, addObject, List.length_append, List.length_append, htag,
        List.length_cons]
      unfold octets at ih
      omega

/-- Objects with different hashes that the trie does not hold yet are each one entry more. -/
theorem addNodes_octets (hmaps : FiniteMaps S) {trie : eTrieID} {objects : List Bytes} {turns : ℕ} {db db' : Trie}
    (hlength : (octets objects).length < 2 ^ 32) (hturns : objects.length < turns)
    (hnodup : (objects.map (S.getHash trie)).Nodup)
    (hnew : ∀ hash ∈ objects.map (S.getHash trie), hash ∉ S.getKnownNodeIDs db)
    (hrun : CBlockHeader.addNodes S.toChainServices trie turns db (octets objects) = (true, db')) :
    (S.getKnownNodeIDs db').length = (S.getKnownNodeIDs db).length + objects.length := by
  induction objects generalizing turns db with
  | nil =>
      obtain ⟨turns, rfl⟩ : ∃ k, turns = k + 1 := ⟨turns - 1, by omega⟩
      cases hrun
      rfl
  | cons object objects ih =>
      obtain ⟨turns, rfl⟩ : ∃ k, turns = k + 1 := ⟨turns - 1, by omega⟩
      have hobject := (length_le_octets List.mem_cons_self).trans_lt hlength
      have hrest : (octets objects).length < 2 ^ 32 := by
        refine lt_of_le_of_lt ?_ hlength
        rw [octets, octets, List.flatMap_cons, List.length_append]
        exact Nat.le_add_left _ _
      have hnext : getNextObject (octets (object :: objects)) =
          some (⟨OCTET_STRING, UNIVERSAL, object⟩, octets objects) :=
        shortTag_octets.getNextObject_addObject hobject (octets objects)
      have hmore : (octets (object :: objects)).isEmpty = false := rfl
      rw [CBlockHeader.addNodes, hmore, if_neg (by decide), hnext] at hrun
      dsimp only at hrun
      rw [if_pos rfl] at hrun
      rw [List.map_cons, List.nodup_cons] at hnodup
      cases hadd : S.addNode trie object db with
      | none =>
          rw [hadd] at hrun
          cases hrun
      | some after =>
          rw [hadd] at hrun
          have hperm := hmaps.addNode hadd (hnew _ List.mem_cons_self)
          rw [ih hrest (by simpa using hturns) hnodup.2 ?_ hrun, hperm.length_eq]
          · simp
            omega
          · intro hash hmem
            rw [hperm.mem_iff, List.mem_cons, not_or]
            exact ⟨fun heq => hnodup.1 (heq ▸ hmem), hnew hash (List.mem_cons_of_mem _ hmem)⟩

/-- A new trie that is loaded has one entry for each object. -/
theorem loadTrie_sequence (hmaps : FiniteMaps S) {trie : eTrieID} {objects : List Bytes} {db db' : Trie}
    {claimed : Bytes} (hlength : (octets objects).length < 2 ^ 32)
    (hnodup : (objects.map (S.getHash trie)).Nodup) (hempty : S.getKnownNodeIDs db = [])
    (hload : CBlockHeader.loadTrie S.toChainServices trie db claimed (octets objects) = (true, db')) :
    (S.getKnownNodeIDs db').length = objects.length := by
  have hturns : objects.length < (octets objects).length + 1 := Nat.lt_succ_of_le (length_objects_le objects)
  unfold CBlockHeader.loadTrie at hload
  split at hload
  · cases hload
  · next after hrun =>
      have hcount := addNodes_octets hmaps hlength hturns hnodup (by rw [hmaps.trackKnownNodes, hempty]; simp) hrun
      rw [hmaps.trackKnownNodes, hempty, List.length_nil, Nat.zero_add] at hcount
      split_ifs at hload with hclaimed
      · cases hload
      · obtain rfl := (Prod.mk.inj hload).2
        rw [hmaps.setIsTrieFullyInRAM, hcount]

/-- One sequence of the body. -/
theorem getNextObject_sequence {objects : List Bytes} (hlength : (octets objects).length < 2 ^ 32) (rest : Bytes) :
    getNextObject (sequence objects ++ rest) =
      some (⟨SEQUENCE, UNIVERSAL ||| CONSTRUCTED, octets objects⟩, rest) :=
  shortTag_sequence.getNextObject_addObject hlength rest

/-- What a list of identifiers is packed as. -/
structure Named (S : ContentServices Trie) (trie : eTrieID) (ids objects : List Bytes) : Prop where
  hashes : objects.map (S.getHash trie) = ids
  nodup : ids.Nodup
  length_lt : (octets objects).length < 2 ^ 32

theorem Named.load (hmaps : FiniteMaps S) {trie : eTrieID} {ids objects : List Bytes}
    (hnamed : Named S trie ids objects) {db db' : Trie} {claimed : Bytes} (hempty : S.getKnownNodeIDs db = [])
    (hload : CBlockHeader.loadTrie S.toChainServices trie db claimed (octets objects) = (true, db')) :
    (S.getKnownNodeIDs db').length = ids.length := by
  have hcount := loadTrie_sequence hmaps hnamed.length_lt (hnamed.hashes ▸ hnamed.nodup) hempty hload
  rw [hcount, ← hnamed.hashes, List.length_map]

/-- The sequences of receipts and verifiables, which every block has. -/
theorem loadSequences_common (hmaps : FiniteMaps S) {header header' : CBlockHeader Trie}
    {receiptsIDs verifiablesIDs receipts verifiables : List Bytes} (hreceipts : Named S .receipts receiptsIDs receipts)
    (hverifiables : Named S .verifiables verifiablesIDs verifiables)
    (hnoReceipts : S.getKnownNodeIDs header.mReceiptsDB = [])
    (hnoVerifiables : S.getKnownNodeIDs header.mVerifiablesDB = [])
    (hload : header.loadSequences S.toChainServices [.receipts, .verifiables]
      (sequence receipts ++ sequence verifiables) = (true, header')) :
    (S.getKnownNodeIDs header'.mReceiptsDB).length = receiptsIDs.length ∧
      (S.getKnownNodeIDs header'.mVerifiablesDB).length = verifiablesIDs.length ∧
      header'.mTransactionsDB = header.mTransactionsDB := by
  have hlast := getNextObject_sequence hverifiables.length_lt []
  rw [List.append_nil] at hlast
  simp only [CBlockHeader.loadSequences, getNextObject_sequence hreceipts.length_lt, hlast] at hload
  split_ifs at hload with hfirst hsecond
  · obtain rfl := (Prod.mk.inj hload).2
    refine ⟨hreceipts.load hmaps hnoReceipts (Prod.ext hfirst rfl),
      hverifiables.load hmaps hnoVerifiables (Prod.ext hsecond rfl), rfl⟩
  · cases hload
  · cases hload

/-- The sequences of a block of either kind. -/
theorem loadSequences_spec (hmaps : FiniteMaps S) {header header' : CBlockHeader Trie}
    {transactionIDs receiptsIDs verifiablesIDs transactions receipts verifiables : List Bytes}
    (htransactions : header.mIsKeyBlock = false → Named S .transactions transactionIDs transactions)
    (hreceipts : Named S .receipts receiptsIDs receipts)
    (hverifiables : Named S .verifiables verifiablesIDs verifiables)
    (hnoTransactions : S.getKnownNodeIDs header.mTransactionsDB = [])
    (hnoReceipts : S.getKnownNodeIDs header.mReceiptsDB = [])
    (hnoVerifiables : S.getKnownNodeIDs header.mVerifiablesDB = [])
    (hload : header.loadSequences S.toChainServices
      (if header.mIsKeyBlock then [.receipts, .verifiables] else [.transactions, .receipts, .verifiables])
      ((if header.mIsKeyBlock then [] else sequence transactions) ++
        (sequence receipts ++ sequence verifiables)) = (true, header')) :
    (S.getKnownNodeIDs header'.mTransactionsDB).length = (if header.mIsKeyBlock then 0 else transactionIDs.length) ∧
      (S.getKnownNodeIDs header'.mReceiptsDB).length = receiptsIDs.length ∧
      (S.getKnownNodeIDs header'.mVerifiablesDB).length = verifiablesIDs.length := by
  cases hkey : header.mIsKeyBlock with
  | true =>
      simp only [hkey, if_true, List.nil_append] at hload
      obtain ⟨hfirst, hsecond, hsame⟩ :=
        loadSequences_common hmaps hreceipts hverifiables hnoReceipts hnoVerifiables hload
      exact ⟨by rw [hsame, hnoTransactions]; rfl, hfirst, hsecond⟩
  | false =>
      simp only [hkey, Bool.false_eq_true, if_false] at hload ⊢
      rw [CBlockHeader.loadSequences, getNextObject_sequence (htransactions hkey).length_lt] at hload
      dsimp only at hload
      generalize hloaded : CBlockHeader.loadTrie S.toChainServices .transactions header.mTransactionsDB
        (header.fields .mTransactionsRootID) (octets transactions) = loaded at hload
      obtain ⟨ok, db⟩ := loaded
      cases ok with
      | false => cases hload
      | true =>
          obtain ⟨hfirst, hsecond, hsame⟩ := @loadSequences_common _ S hmaps { header with mTransactionsDB := db }
            header' _ _ _ _ hreceipts hverifiables hnoReceipts hnoVerifiables hload
          refine ⟨?_, hfirst, hsecond⟩
          rw [hsame]
          exact (htransactions hkey).load hmaps hnoTransactions hloaded

/-- The sequences of receipts and verifiables, which end what is packed. -/
theorem packCommon_spec (hmaps : FiniteMaps S) {block : CBlock Trie} (hlists : Lists (Listed S) block)
    {header header' : CBlockHeader Trie} {transactions contents : Bytes}
    (hpack : (match packNodes (CBlockHeader.getReceipt S) false block.mReceiptsIDs header with
      | (none, header) => (none, header)
      | (some receipts, header) =>
          let (verifiables, header) := packNodes (CBlockHeader.getVerifiable S) false block.mVerifiablesIDs header
          (verifiables.map fun verifiables => transactions ++ (sequence receipts ++ sequence verifiables), header)) =
        ((some contents, header') : Option Bytes × CBlockHeader Trie)) :
    ∃ receipts verifiables, receipts.map (S.getHash .receipts) = block.mReceiptsIDs ∧
      verifiables.map (S.getHash .verifiables) = block.mVerifiablesIDs ∧
      contents = transactions ++ (sequence receipts ++ sequence verifiables) := by
  split at hpack
  · cases hpack
  · next receipts after hreceipts =>
      obtain ⟨verifiables, hverifiables, rfl⟩ := Option.map_eq_some_iff.mp (Prod.mk.inj hpack).1
      refine ⟨receipts, verifiables, ?_, ?_, rfl⟩
      · exact packNodes_spec (fun hget => getNode_spec hmaps hget) hlists.receipts.hashes hreceipts
      · have hrest : packNodes (CBlockHeader.getVerifiable S) false block.mVerifiablesIDs after =
            (some verifiables, _) := Prod.ext hverifiables rfl
        exact packNodes_spec (fun hget => getNode_spec hmaps hget) hlists.verifiables.hashes hrest

theorem length_octets_le (objects : List Bytes) : (octets objects).length ≤ (sequence objects).length :=
  length_le_addObject _ _ _

/-- What is packed behind the header. -/
theorem packContents_spec (hmaps : FiniteMaps S) {block : CBlock Trie} (hlists : Lists (Listed S) block)
    {header header' : CBlockHeader Trie} {contents : Bytes}
    (hpack : block.packContents S header = (some contents, header')) (hlength : contents.length < 2 ^ 32) :
    ∃ transactions receipts verifiables,
      (header.mIsKeyBlock = false → Named S .transactions block.mTransactionIDs transactions) ∧
      Named S .receipts block.mReceiptsIDs receipts ∧ Named S .verifiables block.mVerifiablesIDs verifiables ∧
      contents = (if header.mIsKeyBlock then [] else sequence transactions) ++
        (sequence receipts ++ sequence verifiables) := by
  unfold packContents at hpack
  cases hkey : header.mIsKeyBlock with
  | true =>
      simp only [hkey, if_true] at hpack
      obtain ⟨receipts, verifiables, hreceipts, hverifiables, rfl⟩ := packCommon_spec hmaps hlists hpack
      have hfirst := length_octets_le receipts
      have hsecond := length_octets_le verifiables
      simp only [List.nil_append, List.length_append] at hlength
      refine ⟨[], receipts, verifiables, nofun, ⟨hreceipts, hlists.receipts.nodup, by omega⟩,
        ⟨hverifiables, hlists.verifiables.nodup, by omega⟩, rfl⟩
  | false =>
      simp only [hkey, Bool.false_eq_true, if_false] at hpack ⊢
      generalize hnodes : packNodes (CBlockHeader.getTransaction S) true block.mTransactionIDs header = packed at hpack
      obtain ⟨objects, after⟩ := packed
      cases objects with
      | none => cases hpack
      | some transactions =>
          obtain ⟨receipts, verifiables, hreceipts, hverifiables, rfl⟩ := packCommon_spec hmaps hlists hpack
          have hfirst := length_octets_le receipts
          have hsecond := length_octets_le verifiables
          have hthird := length_octets_le transactions
          simp only [List.length_append] at hlength
          refine ⟨transactions, receipts, verifiables, fun _ => ⟨?_, hlists.transactions.nodup, by omega⟩,
            ⟨hreceipts, hlists.receipts.nodup, by omega⟩,
            ⟨hverifiables, hlists.verifiables.nodup, by omega⟩, rfl⟩
          exact packNodes_spec (fun hget => getNode_spec hmaps hget) hlists.transactions.hashes hnodes

/-! ### Decoding -/

/-- As many identifiers are listed as the header counts. -/
structure ReportsCounts (block : CBlock Trie) : Prop where
  transactions : block.mTransactionIDs.length = block.mBlockHeader.fields .mNrOfTransactions
  verifiables : block.mVerifiablesIDs.length = block.mBlockHeader.fields .mNrOfVerifiables
  receipts : block.mReceiptsIDs.length = block.mBlockHeader.fields .mNrOfReceipts

/-- What is in the bytes of a block. -/
theorem getPackedData_made {block after : CBlock Trie} {BERData blockBER : Bytes} {includeSig : Bool}
    (hpack : block.getPackedData S BERData includeSig = (true, blockBER, after)) :
    block.mBlockHeader.Valid ∧ KnownVersion block.mBlockHeader.mVersion ∧ ∃ contents header,
      block.packContents S (block.mBlockHeader.fillRoots S.toChainServices) = (some contents, header) ∧
      blockBER = addObject (if block.mBlockHeader.mIsKeyBlock then eBERObjectType.keyBlock
          else eBERObjectType.regularBlock) (PRIVATE ||| CONSTRUCTED) (encodeSmall block.mVersion ++
        (addObject OCTET_STRING UNIVERSAL
          ((block.mBlockHeader.fillRoots S.toChainServices).packed S.toChainServices includeSig) ++ contents)) := by
  unfold getPackedData at hpack
  split at hpack
  · cases hpack
  next hvalid =>
  simp only [Bool.not_eq_true, Bool.not_eq_false'] at hvalid
  split at hpack
  · cases hpack
  next headerPackedData header hheader =>
  have hmade : KnownVersion block.mBlockHeader.mVersion ∧
      headerPackedData = (block.mBlockHeader.fillRoots S.toChainServices).packed S.toChainServices includeSig ∧
      header = block.mBlockHeader.fillRoots S.toChainServices := by
    unfold CBlockHeader.getPackedData at hheader
    split_ifs at hheader with hinvalid hknown
    · cases hheader
    · cases hheader
      exact ⟨hknown, rfl, rfl⟩
    · cases hheader
  obtain ⟨hknown, rfl, rfl⟩ := hmade
  split at hpack
  · cases hpack
  next contents mBlockHeader hcontents =>
  obtain ⟨-, hbytes⟩ := Prod.mk.inj hpack
  exact ⟨(CBlockHeader.validate_iff _).mp hvalid, hknown, contents, mBlockHeader, hcontents,
    (Prod.mk.inj hbytes).1.symm⟩

theorem shortTag_block (isKeyBlock : Bool) :
    ShortTag (if isKeyBlock then eBERObjectType.keyBlock else eBERObjectType.regularBlock)
      (PRIVATE ||| CONSTRUCTED) := by
  cases isKeyBlock <;> decide

/-- The tries that are opened for a header are empty in memory. -/
theorem openTries_empty (hmaps : FiniteMaps S) {read header : CBlockHeader Trie}
    {result : eBlockHeaderInstantiationResult}
    (hopen : CBlockHeader.openTries S.toChainServices read = .ok (header, result)) :
    S.getKnownNodeIDs header.mTransactionsDB = [] ∧ S.getKnownNodeIDs header.mReceiptsDB = [] ∧
      S.getKnownNodeIDs header.mVerifiablesDB = [] := by
  have hopened : ∀ {trie rootID trackNodes db},
      CBlockHeader.openTrie S.toChainServices trie rootID trackNodes = .ok db → S.getKnownNodeIDs db = [] := by
    intro trie rootID trackNodes db hdb
    unfold CBlockHeader.openTrie at hdb
    split at hdb
    · next opened hnew => exact Except.ok.inj hdb ▸ hmaps.opened hnew
    · cases hdb
    · cases hdb
  obtain ⟨transactionsDB, htransactions, hopen⟩ := CBlockHeader.bind_ok hopen
  obtain ⟨receiptsDB, hreceipts, hopen⟩ := CBlockHeader.bind_ok hopen
  obtain ⟨verifiablesDB, hverifiables, hopen⟩ := CBlockHeader.bind_ok hopen
  dsimp only at hopen
  split_ifs at hopen
  cases hopen
  exact ⟨hopened htransactions, hopened hreceipts, hopened hverifiables⟩

/-- A header is read over the fields of a new one. -/
theorem instantiate_made {services : ChainServices Trie} {headerBER : Bytes}
    {result result' : eBlockHeaderInstantiationResult} {errorInfo info : String} {blockchainMode : eBlockchainMode}
    {header : CBlockHeader Trie}
    (hinst : CBlockHeader.instantiate services headerBER result errorInfo blockchainMode =
      (some header, result', info)) :
    ∃ bh, ∃ read : CBlockHeader Trie, CBlockHeader.newBlockHeader services blockchainMode true = some bh ∧
      CBlockHeader.readHeader services bh headerBER = .ok read ∧
      CBlockHeader.openTries services read = .ok (header, result') := by
  unfold CBlockHeader.instantiate at hinst
  split at hinst
  · cases hinst
  · next bh hnew =>
      split at hinst
      · next hok =>
          obtain ⟨read, hread, hopen⟩ := CBlockHeader.bind_ok hok
          cases hinst
          exact ⟨bh, read, hnew, hread, hopen⟩
      · cases hinst

theorem newBlockHeader_counts {services : ChainServices Trie} {blockchainMode : eBlockchainMode} {isKeyBlock : Bool}
    {bh : CBlockHeader Trie} (hnew : CBlockHeader.newBlockHeader services blockchainMode isKeyBlock = some bh) :
    bh.fields .mNrOfTransactions = (0 : ℕ) ∧ bh.fields .mNrOfVerifiables = (0 : ℕ) ∧
      bh.fields .mNrOfReceipts = (0 : ℕ) := by
  unfold CBlockHeader.newBlockHeader at hnew
  split at hnew
  · cases hnew
  dsimp only at hnew
  split at hnew
  · cases hnew
    exact ⟨rfl, rfl, rfl⟩
  · cases hnew

/-- The counters are carried by every version, that of the transactions by regular headers alone. -/
theorem counts_mem_decodedFields {version : ℕ} (hknown : KnownVersion version) (isKeyBlock : Bool) :
    HeaderField.mNrOfVerifiables ∈ decodedFields version isKeyBlock ∧
      HeaderField.mNrOfReceipts ∈ decodedFields version isKeyBlock ∧
      (HeaderField.mNrOfTransactions ∈ decodedFields version isKeyBlock ↔ isKeyBlock = false) := by
  rcases CBlockHeader.known_cases hknown with rfl | rfl | rfl | rfl <;> cases isKeyBlock <;> decide

/-- The counters of a packed header are those that are read from its bytes. -/
theorem readHeader_counts (hround : ∀ n, S.BytesToBigInt (S.BigIntToBytes n) = some n)
    {packed bh read : CBlockHeader Trie} (hvalid : packed.Valid) (hknown : KnownVersion packed.mVersion)
    (hsize : ((packed.fillRoots S.toChainServices).packed S.toChainServices true).length < 2 ^ 64)
    {blockchainMode : eBlockchainMode}
    (hnew : CBlockHeader.newBlockHeader S.toChainServices blockchainMode true = some bh)
    (hread : CBlockHeader.readHeader S.toChainServices bh
      ((packed.fillRoots S.toChainServices).packed S.toChainServices true) = .ok read) :
    read.mIsKeyBlock = packed.mIsKeyBlock ∧
      read.fields .mNrOfVerifiables = packed.fields .mNrOfVerifiables ∧
      read.fields .mNrOfReceipts = packed.fields .mNrOfReceipts ∧
      read.fields .mNrOfTransactions =
        (if packed.mIsKeyBlock then (0 : ℕ) else packed.fields .mNrOfTransactions) := by
  have hform := CBlockHeader.canonicalForm_of_valid hround hvalid hknown
  obtain ⟨hversion, hkind, hcontents⟩ := CBlockHeader.readHeader_canonical hform hsize hread
  obtain ⟨hverifiables, hreceipts, htransactions⟩ := counts_mem_decodedFields hknown packed.mIsKeyBlock
  have hcarried : ∀ f ∈ decodedFields packed.mVersion packed.mIsKeyBlock,
      f ∉ [HeaderField.mTransactionsRootID, .mReceiptsRootID, .mVerifiablesRootID] →
        read.fields f = packed.fields f := by
    intro f hf hother
    have hvalue := hcontents f hf
    have hsmall := CBlockHeader.small_of_read hvalue
    rw [← CBlockHeader.fillRoots_other packed hother]
    exact Option.some.inj (hvalue.symm.trans (CBlockHeader.read_write hround hsmall))
  refine ⟨hkind, hcarried _ hverifiables (by decide), hcarried _ hreceipts (by decide), ?_⟩
  cases hkey : packed.mIsKeyBlock with
  | false => exact hcarried _ (htransactions.mpr hkey) (by decide)
  | true =>
      obtain ⟨outer, rest, dec2, inner, rest', _, _, _, _, hdecode, _⟩ := CBlockHeader.readHeader_ok hread
      rw [hversion, hkind] at hdecode
      have hleft : HeaderField.mNrOfTransactions ∉ decodedFields packed.mVersion packed.mIsKeyBlock := by
        rw [htransactions, hkey]
        decide
      rw [(headerCodec S.toChainServices).decode_other hdecode hleft, if_pos rfl]
      exact (newBlockHeader_counts hnew).1

/-- A header that was packed without its signature is not read. -/
theorem readHeader_unsigned {services : ChainServices Trie} {packed bh read : CBlockHeader Trie}
    (hknown : KnownVersion packed.mVersion) (hsize : (packed.packed services false).length < 2 ^ 64) :
    CBlockHeader.readHeader services bh (packed.packed services false) ≠ .ok read := by
  intro hread
  obtain ⟨outer, rest, dec2, inner, rest', houter, hkind, hversion, hinner, hdecode, -⟩ :=
    CBlockHeader.readHeader_ok hread
  rw [CBlockHeader.packed_eq_body] at houter hsize
  have htag := CBlockHeader.shortTag_header packed.mIsKeyBlock
  have hbody := (length_le_addObject _ _ _).trans_lt hsize
  rcases Nat.lt_or_ge (CBlockHeader.packedBody services false packed).length (2 ^ 32) with hshort | hlong
  swap
  · cases houter.symm.trans (htag.getNextObject_addObject_last_none hlong hbody)
  have hsome := htag.getNextObject_addObject_last hshort
  rw [houter] at hsome
  obtain ⟨rfl, rfl⟩ := Prod.mk.inj (Option.some.inj hsome)
  have hkey : packed.mIsKeyBlock = read.mIsKeyBlock := by
    revert hkind
    cases packed.mIsKeyBlock <;> exact Except.ok.inj
  obtain ⟨hlength, hsmall⟩ := CBlockHeader.smallInteger_known hknown
  have hwritten : decodeSmall (CBlockHeader.packedBody services false packed) =
      some (packed.mVersion, cons SEQUENCE UNIVERSAL (CBlockHeader.packedRow services false packed)) := by
    refine (decodeSmall_addObject hlength _).trans ?_
    rw [hsmall]
    rfl
  obtain ⟨hreadVersion, rfl⟩ := Prod.mk.inj (Option.some.inj (hwritten.symm.trans hversion))
  have hrow : (CBlockHeader.packedRow services false packed).length < 2 ^ 32 := by
    refine ((length_le_addObject SEQUENCE (UNIVERSAL ||| CONSTRUCTED) _).trans ?_).trans_lt hshort
    rw [CBlockHeader.packedBody, List.length_append]
    exact Nat.le_add_left _ _
  have hnext := shortTag_sequence.getNextObject_addObject_last hrow
  obtain ⟨rfl, -⟩ := Prod.mk.inj (Option.some.inj (hnext.symm.trans hinner))
  have hobjects : CBlockHeader.packedRow services false packed =
      (decodedFields packed.mVersion packed.mIsKeyBlock).flatMap fun f =>
        addObject (CBlockHeader.fieldTag false f) UNIVERSAL (CBlockHeader.fieldContents services false packed f) := by
    unfold CBlockHeader.packedRow
    congr 1
    funext f
    exact CBlockHeader.packField_eq packed false f
  dsimp only at hdecode
  rw [← hkey, ← hreadVersion, hobjects] at hdecode
  rw [hobjects] at hrow
  have hshortTags : ∀ f, ShortTag (CBlockHeader.fieldTag false f) UNIVERSAL := by
    intro f
    cases f <;> decide
  have hsignature := CBlockHeader.common_mem_decodedFields hknown packed.mIsKeyBlock .mSignature (by decide)
  have hnull : NULL_TAG = OCTET_STRING :=
    (headerCodec services).tags_of_decode hshortTags hrow hdecode _ hsignature
  cases hnull

/-- Loading goes through the sequences behind the header. -/
theorem loadTries_sequences {header header' : CBlockHeader Trie} {isKeyBlock : Bool} {headerData contents : Bytes}
    (hsize : (encodeSmall 1 ++ (addObject OCTET_STRING UNIVERSAL headerData ++ contents)).length < 2 ^ 32)
    (hload : header.loadTries S.toChainServices
      (addObject (if isKeyBlock then eBERObjectType.keyBlock else eBERObjectType.regularBlock)
        (PRIVATE ||| CONSTRUCTED) (encodeSmall 1 ++ (addObject OCTET_STRING UNIVERSAL headerData ++ contents))) =
        (true, header')) :
    ∃ loaded, header.loadSequences S.toChainServices
        (if header.mIsKeyBlock then [.receipts, .verifiables] else [.transactions, .receipts, .verifiables])
        contents = (true, loaded) ∧ header' = { loaded with mTriesLoaded := true } := by
  have houter := (shortTag_block isKeyBlock).getNextObject_addObject_last hsize
  have hheaderData : headerData.length < 2 ^ 32 := by
    refine ((length_le_addObject OCTET_STRING UNIVERSAL headerData).trans ?_).trans_lt hsize
    simp only [List.length_append]
    omega
  have hversion : decodeSmall (encodeSmall 1 ++ (addObject OCTET_STRING UNIVERSAL headerData ++ contents)) =
      some (1, addObject OCTET_STRING UNIVERSAL headerData ++ contents) :=
    decodeSmall_addObject (by decide +kernel) _
  have hnext := shortTag_octets.getNextObject_addObject hheaderData contents
  have htypes : ¬ ((if isKeyBlock then eBERObjectType.keyBlock else eBERObjectType.regularBlock) ≠
        eBERObjectType.keyBlock ∧
      (if isKeyBlock then eBERObjectType.keyBlock else eBERObjectType.regularBlock) ≠
        eBERObjectType.regularBlock) := by
    cases isKeyBlock <;> decide
  unfold CBlockHeader.loadTries at hload
  simp only [houter, Option.bind_eq_bind, Option.bind_some, if_neg htypes, hversion] at hload
  split at hload
  · cases hload
  · have hbody : header.loadBody S.toChainServices (addObject OCTET_STRING UNIVERSAL headerData ++ contents) =
        header.loadSequences S.toChainServices
          (if header.mIsKeyBlock then [.receipts, .verifiables] else [.transactions, .receipts, .verifiables])
          contents := by
      rw [CBlockHeader.loadBody, hnext]
      exact if_neg (fun hne => hne rfl)
    rw [if_pos trivial, hbody] at hload
    obtain ⟨hloaded, rfl⟩ := Prod.mk.inj hload
    exact ⟨_, Prod.ext hloaded rfl, by rw [hloaded]⟩

/-- The bytes of a block that is read are those of its version, and what follows. -/
theorem readBlock_packed {isKeyBlock : Bool} {written version : ℕ} {behind dec2 : Bytes}
    (hsize : (addObject (if isKeyBlock then eBERObjectType.keyBlock else eBERObjectType.regularBlock)
      (PRIVATE ||| CONSTRUCTED) (encodeSmall written ++ behind)).length < 2 ^ 64)
    (hread : readBlock (addObject (if isKeyBlock then eBERObjectType.keyBlock else eBERObjectType.regularBlock)
      (PRIVATE ||| CONSTRUCTED) (encodeSmall written ++ behind)) = some (version, dec2)) :
    (encodeSmall written ++ behind).length < 2 ^ 32 ∧ version = written ∧ dec2 = behind := by
  have htag := shortTag_block isKeyBlock
  have hbody := (length_le_addObject _ _ _).trans_lt hsize
  have hshort : (encodeSmall written ++ behind).length < 2 ^ 32 := by
    by_contra hlong
    rw [readBlock, htag.getNextObject_addObject_last_none (Nat.not_lt.mp hlong) hbody] at hread
    cases hread
  have houter := htag.getNextObject_addObject_last hshort
  have hversion : decodeSmall (encodeSmall written ++ behind) = some (version, dec2) := by
    rw [readBlock, houter] at hread
    cases isKeyBlock <;> exact hread
  have hwritten : (integerContents written).length < 2 ^ 32 := by
    refine ((length_le_addObject INTEGER UNIVERSAL _).trans ?_).trans_lt hshort
    rw [List.length_append]
    exact Nat.le_add_right _ _
  rw [encodeSmall, decodeSmall_addObject hwritten, Option.map_eq_some_iff] at hversion
  obtain ⟨n, hn, hpair⟩ := hversion
  rw [smallInteger_integerContents] at hn
  split_ifs at hn
  obtain rfl := Option.some.inj hn
  obtain ⟨rfl, rfl⟩ := Prod.mk.inj hpair
  exact ⟨hshort, rfl, rfl⟩

/-- The tries of a populated block are those that were loaded, and its identifiers what they hold. -/
theorem instantiateBody_populated {block block' : CBlock Trie} {blockBER headerData : Bytes}
    {blockchainMode : eBlockchainMode} {info : String}
    (hbody : instantiateBody S.toChainServices true block blockBER headerData blockchainMode =
      (some block', .OK, info)) :
    ∃ header resultHeader info' loaded,
      CBlockHeader.instantiate S.toChainServices headerData .OK "" blockchainMode =
        (some header, resultHeader, info') ∧
      header.loadTries S.toChainServices blockBER = (true, loaded) ∧ block'.mBlockHeader = loaded ∧
      block'.mTransactionIDs = S.getKnownNodeIDs loaded.mTransactionsDB ∧
      block'.mVerifiablesIDs = S.getKnownNodeIDs loaded.mVerifiablesDB ∧
      block'.mReceiptsIDs = S.getKnownNodeIDs loaded.mReceiptsDB := by
  unfold instantiateBody at hbody
  split at hbody
  · cases hbody
  · next header resultHeader mErrorInfo hheader =>
      dsimp only at hbody
      split at hbody
      · simp only [if_true, populateTries, Prod.mk.injEq, Option.some.injEq] at hbody
        obtain ⟨rfl, hresult, -⟩ := hbody
        refine ⟨header, resultHeader, mErrorInfo, _, hheader, Prod.ext ?_ rfl, rfl, rfl, rfl, rfl⟩
        by_contra hfailed
        rw [if_neg hfailed] at hresult
        cases hresult
      · cases hbody

/-- The tries and the counters of a block that was loaded from what `getPackedData` writes. -/
theorem loaded_counts (hmaps : FiniteMaps S) (hround : ∀ n, S.BytesToBigInt (S.BigIntToBytes n) = some n)
    {block : CBlock Trie} {contents : Bytes} {after : CBlockHeader Trie} (hlists : Lists (Listed S) block)
    (hvalid : block.mBlockHeader.Valid) (hknown : KnownVersion block.mBlockHeader.mVersion)
    (hcontents : block.packContents S (block.mBlockHeader.fillRoots S.toChainServices) = (some contents, after))
    (hsize : (encodeSmall 1 ++ (addObject OCTET_STRING UNIVERSAL
      ((block.mBlockHeader.fillRoots S.toChainServices).packed S.toChainServices true) ++ contents)).length < 2 ^ 32)
    {header loaded : CBlockHeader Trie} {resultHeader : eBlockHeaderInstantiationResult} {info : String}
    {blockchainMode : eBlockchainMode}
    (hheader : CBlockHeader.instantiate S.toChainServices
      ((block.mBlockHeader.fillRoots S.toChainServices).packed S.toChainServices true) .OK "" blockchainMode =
        (some header, resultHeader, info))
    (hload : header.loadTries S.toChainServices
      (addObject (if block.mBlockHeader.mIsKeyBlock then eBERObjectType.keyBlock else eBERObjectType.regularBlock)
        (PRIVATE ||| CONSTRUCTED) (encodeSmall 1 ++ (addObject OCTET_STRING UNIVERSAL
          ((block.mBlockHeader.fillRoots S.toChainServices).packed S.toChainServices true) ++ contents))) =
        (true, loaded)) :
    (S.getKnownNodeIDs loaded.mTransactionsDB).length = loaded.fields .mNrOfTransactions ∧
      (S.getKnownNodeIDs loaded.mVerifiablesDB).length = loaded.fields .mNrOfVerifiables ∧
      (S.getKnownNodeIDs loaded.mReceiptsDB).length = loaded.fields .mNrOfReceipts := by
  have hkey : (block.mBlockHeader.fillRoots S.toChainServices).mIsKeyBlock = block.mBlockHeader.mIsKeyBlock := rfl
  have hcontentsSize : contents.length < 2 ^ 32 := by
    refine lt_of_le_of_lt ?_ hsize
    simp only [List.length_append]
    omega
  have hheaderSize : ((block.mBlockHeader.fillRoots S.toChainServices).packed S.toChainServices true).length <
      2 ^ 64 := by
    refine ((length_le_addObject OCTET_STRING UNIVERSAL _).trans ?_).trans_lt (hsize.trans (by decide))
    simp only [List.length_append]
    omega
  obtain ⟨fresh, read, hnew, hread, hopen⟩ := instantiate_made hheader
  obtain ⟨hkind, hverifiables, hreceipts, htransactions⟩ :=
    readHeader_counts hround hvalid hknown hheaderSize hnew hread
  obtain ⟨⟨-, hsameKind, hsameFields⟩, -⟩ := CBlockHeader.openTries_ok hopen
  obtain ⟨hnoTransactions, hnoReceipts, hnoVerifiables⟩ := openTries_empty hmaps hopen
  obtain ⟨transactions, receipts, verifiables, hfirst, hsecond, hthird, rfl⟩ :=
    packContents_spec hmaps hlists hcontents hcontentsSize
  have hfields : loaded.fields = read.fields :=
    (congrArg (·.2.fields) hload).symm.trans ((CBlockHeader.loadTries_same header _).fields.trans hsameFields)
  obtain ⟨sequences, hsequences, rfl⟩ := loadTries_sequences hsize hload
  rw [hkey, ← hkind, ← hsameKind] at hsequences hfirst
  obtain ⟨hloadedTransactions, hloadedReceipts, hloadedVerifiables⟩ :=
    loadSequences_spec hmaps hfirst hsecond hthird hnoTransactions hnoReceipts hnoVerifiables hsequences
  dsimp only at hfields ⊢
  rw [hfields, hloadedTransactions, hloadedReceipts, hloadedVerifiables, hverifiables, hreceipts, htransactions,
    hsameKind, hkind]
  refine ⟨?_, hlists.verifiables.counted.symm, hlists.receipts.counted.symm⟩
  cases block.mBlockHeader.mIsKeyBlock with
  | true => rfl
  | false => exact hlists.transactions.counted.symm

/-- A block that was packed while its lists and counters agreed is decoded with the counts of its header. -/
theorem decoded_counts (hmaps : FiniteMaps S) (hround : ∀ n, S.BytesToBigInt (S.BigIntToBytes n) = some n)
    {block after : CBlock Trie} {BERData blockBER : Bytes} {includeSig : Bool} (hlists : Lists (Listed S) block)
    (hpack : block.getPackedData S BERData includeSig = (true, blockBER, after)) (hsize : blockBER.length < 2 ^ 64)
    {block' : CBlock Trie} {result : eBlockInstantiationResult} {errorInfo info : String}
    {blockchainMode : eBlockchainMode}
    (hinst : instantiateBlock S.toChainServices true blockBER result errorInfo blockchainMode =
      (some block', .OK, info)) : ReportsCounts block' := by
  obtain ⟨hvalid, hknown, contents, header, hcontents, rfl⟩ := getPackedData_made hpack
  unfold instantiateBlock at hinst
  split at hinst
  · cases hinst
  next freshBlock hnew =>
  dsimp only at hinst
  split at hinst
  · cases hinst
  next version dec2 hread =>
  obtain ⟨hshort, rfl, rfl⟩ := readBlock_packed hsize hread
  by_cases hversion : block.mVersion = 1
  · have hheaderData : ((block.mBlockHeader.fillRoots S.toChainServices).packed S.toChainServices
        includeSig).length < 2 ^ 32 := by
      refine ((length_le_addObject OCTET_STRING UNIVERSAL _).trans ?_).trans_lt hshort
      simp only [List.length_append]
      omega
    rw [if_pos hversion, shortTag_octets.getNextObject_addObject hheaderData] at hinst
    dsimp only at hinst
    rw [if_neg (fun hne => hne rfl)] at hinst
    split at hinst
    · cases hinst
    next loadedBlock loadedResult mErrorInfo hbody =>
    cases hinst
    rw [hversion] at hbody hshort
    obtain ⟨read, resultHeader, info', loaded, hheader, hload, hsame, htransactions, hverifiables, hreceipts⟩ :=
      instantiateBody_populated hbody
    have hsigned : includeSig = true := by
      by_contra hunsigned
      rw [Bool.not_eq_true] at hunsigned
      subst hunsigned
      obtain ⟨fresh, read, -, hread, -⟩ := instantiate_made hheader
      exact @readHeader_unsigned _ _ (block.mBlockHeader.fillRoots S.toChainServices) fresh read hknown
        (hheaderData.trans (by decide)) hread
    subst hsigned
    obtain ⟨hnrTransactions, hnrVerifiables, hnrReceipts⟩ :=
      loaded_counts hmaps hround hlists hvalid hknown hcontents hshort hheader hload
    constructor
    · rw [hsame, htransactions, hnrTransactions]
    · rw [hsame, hverifiables, hnrVerifiables]
    · rw [hsame, hreceipts, hnrReceipts]
  · rw [if_neg hversion] at hinst
    cases hinst
    obtain ⟨fresh, hfresh, rfl⟩ := Option.map_eq_some_iff.mp hnew
    obtain ⟨htransactions, hverifiables, hreceipts⟩ := newBlockHeader_counts hfresh
    exact ⟨htransactions.symm, hverifiables.symm, hreceipts.symm⟩

/-! ### Runs -/

/-- Whatever is packed of the block is decoded with the counts of its header. -/
def DecodesCounts (S : ContentServices Trie) (block : CBlock Trie) : Prop :=
  ∀ {BERData blockBER includeSig after}, block.getPackedData S BERData includeSig = (true, blockBER, after) →
    blockBER.length < 2 ^ 64 → ∀ {result errorInfo blockchainMode block' info},
      instantiateBlock S.toChainServices true blockBER result errorInfo blockchainMode = (some block', .OK, info) →
        ReportsCounts block'

/-- A new block has nothing listed, counted or held. -/
theorem newBlock_lists (hmaps : FiniteMaps S) {blockchainMode : eBlockchainMode} {block : CBlock Trie}
    (hnew : newBlock S.toChainServices blockchainMode = some block) : Lists (Listed S) block := by
  obtain ⟨fresh, hfresh, rfl⟩ := Option.map_eq_some_iff.mp hnew
  obtain ⟨htransactions, hverifiables, hreceipts⟩ := newBlockHeader_counts hfresh
  have hlisted : ∀ {counter : ℕ} {db : Trie}, counter = 0 → S.getKnownNodeIDs db = [] →
      Listed S [] counter db := by
    intro counter db hzero hempty
    exact ⟨⟨List.nodup_nil, hzero, by rw [hempty]⟩, nofun, by rw [hempty]⟩
  unfold CBlockHeader.newBlockHeader at hfresh
  split at hfresh
  · cases hfresh
  dsimp only at hfresh
  split at hfresh
  · next hfirst hsecond hthird =>
      cases hfresh
      exact ⟨hlisted htransactions (hmaps.opened hfirst), hlisted hverifiables (hmaps.opened hthird),
        hlisted hreceipts (hmaps.opened hsecond)⟩
  · cases hfresh

theorem contents_agree_iff (S : ContentServices Trie) (hmaps : FiniteMaps S)
    (hround : ∀ n, S.BytesToBigInt (S.BigIntToBytes n) = some n) :
    (∀ {blockchainMode block}, newBlock S.toChainServices blockchainMode = some block → Lists (Listed S) block) ∧
    ∀ {block : CBlock Trie}, Lists (Listed S) block → ∀ calls,
      (Machine.EveryStep (contentCall S) (Kept S) block calls ∧
          DecodesCounts S (Machine.final (contentCall S) block calls)) ↔
        Machine.EveryStep (contentCall S) (Added S) block calls := by
  refine ⟨newBlock_lists hmaps, fun {block} hlists calls => ?_⟩
  have hkeep : ∀ block call, Lists (Listed S) block → Added S block call →
      Lists (Listed S) (block.contentCall S call).2 := fun block call hlists => (kept_iff_added hmaps hlists call).2
  have hruns := Machine.everyStep_iff_of_invariant
    (fun block call hlists => (kept_iff_added hmaps hlists call).1) hkeep hlists calls
  refine ⟨fun hagree => hruns.mp hagree.1, fun hadded => ⟨hruns.mpr hadded, ?_⟩⟩
  have hfinal := (Machine.everyStep_of_invariant (fun block call hlists hadded =>
    ⟨hadded, hkeep block call hlists hadded⟩) hlists hadded).2
  intro BERData blockBER includeSig after hpack hsize result errorInfo blockchainMode block' info hinst
  exact decoded_counts hmaps hround hfinal hpack hsize hinst

/-! ### A verifiable twice -/

/-- A trie as the list of its nodes. -/
structure ContentMap where
  nodes : List (Bytes × Bytes) := []
  nodup : (nodes.map Prod.fst).Nodup := by decide

/-- Whether the hash is new, and the map with the node. -/
def ContentMap.insert (db : ContentMap) (hash packedData : Bytes) : Bool × ContentMap :=
  if hnew : hash ∉ db.nodes.map Prod.fst then
    (true, { nodes := (hash, packedData) :: db.nodes, nodup := List.nodup_cons.mpr ⟨hnew, db.nodup⟩ })
  else (false, db)

/-- A node whose tries are such lists. -/
def mapNode : ContentServices ContentMap where
  cf := emptyNode.cf
  getEmptyNodeHash := emptyNode.getEmptyNodeHash
  BLOCK_HEADER_LATEST_VERSION := 4
  BytesToBigInt := emptyNode.BytesToBigInt
  BigIntToBytes := emptyNode.BigIntToBytes
  newTrieDB _ _ _ _ _ := .ok {}
  isEmpty db := db.nodes.isEmpty
  hasRoot _ := true
  getPerspective db := (sha256 (db.nodes.flatMap fun node => node.1 ++ node.2)).val
  trackKnownNodes db := db
  addNode _ packedData db := some (db.insert (sha256 packedData).val packedData).2
  setIsTrieFullyInRAM db := db
  getKnownNodeIDs db := db.nodes.map Prod.fst
  addNodeExt _ hash packedData db :=
    let (new, db) := db.insert hash packedData
    (if new then .added else .updated, db)
  findNodeByFullID trie db hash :=
    (db.nodes.find? fun node => node.1 = hash ∧ (sha256 node.2).val = hash).map fun node =>
      { type := 3
        subType := match trie with
          | .transactions => 2
          | .receipts => 3
          | .verifiables => 4
          | .state => 0
        packedData := node.2 }
  getBlockDataByHash _ := []
  getHash _ packedData := (sha256 packedData).val

theorem addNodeExt_new {db : ContentMap} {hash : Bytes} (hnew : hash ∉ db.nodes.map Prod.fst) (trie : eTrieID)
    (packedData : Bytes) : mapNode.addNodeExt trie hash packedData db =
      (.added, { nodes := (hash, packedData) :: db.nodes, nodup := List.nodup_cons.mpr ⟨hnew, db.nodup⟩ }) := by
  change (if (db.insert hash packedData).1 then eResult.added else .updated, (db.insert hash packedData).2) = _
  rw [ContentMap.insert, dif_pos hnew]
  rfl

theorem addNodeExt_known {db : ContentMap} {hash : Bytes} (hknown : hash ∈ db.nodes.map Prod.fst) (trie : eTrieID)
    (packedData : Bytes) : mapNode.addNodeExt trie hash packedData db = (.updated, db) := by
  change (if (db.insert hash packedData).1 then eResult.added else .updated, (db.insert hash packedData).2) = _
  rw [ContentMap.insert, dif_neg (not_not.mpr hknown)]
  rfl

theorem finiteMaps_mapNode : FiniteMaps mapNode where
  nodup db := db.nodup
  added := by
    intro trie hash packedData db db' hadd
    by_cases hknown : hash ∈ db.nodes.map Prod.fst
    · rw [addNodeExt_known hknown] at hadd
      cases hadd
    · rw [addNodeExt_new hknown] at hadd
      cases hadd
      exact ⟨hknown, .refl _⟩
  updated := by
    intro trie hash packedData db db' hadd
    by_cases hknown : hash ∈ db.nodes.map Prod.fst
    · rw [addNodeExt_known hknown] at hadd
      cases hadd
      exact ⟨hknown, .refl _⟩
    · rw [addNodeExt_new hknown] at hadd
      cases hadd
  failure := by
    intro trie hash packedData db db' hadd
    by_cases hknown : hash ∈ db.nodes.map Prod.fst
    · rw [addNodeExt_known hknown] at hadd
      cases hadd
    · rw [addNodeExt_new hknown] at hadd
      cases hadd
  found := by
    intro trie db hash node hfound
    obtain ⟨entry, hentry, rfl⟩ := Option.map_eq_some_iff.mp hfound
    have hhash := List.find?_some hentry
    simp only [decide_eq_true_eq] at hhash
    exact hhash.2
  addNode := by
    intro trie packedData db db' hadd hnew
    obtain rfl := Option.some.inj hadd
    have hinsert := addNodeExt_new hnew trie packedData
    change (mapNode.getKnownNodeIDs (mapNode.addNodeExt trie (sha256 packedData).val packedData db).2).Perm _
    rw [show (sha256 packedData).val = mapNode.getHash trie packedData from rfl, hinsert]
    exact .refl _
  opened := by
    intro trie rootHash trackNodes throwOnError loadRootsFromSS db hopened
    cases hopened
    rfl
  trackKnownNodes _ := rfl
  setIsTrieFullyInRAM _ := rfl

def sampleItem (fill : UInt8) : ContentItem where
  hash := List.replicate 32 fill
  hash_length := List.length_replicate
  packedData := [fill]

def sampleBlock : CBlock ContentMap where
  mBlockHeader :=
    { mVersion := 4
      mIsKeyBlock := false
      fields := fun f => f.kind.zero
      mTransactionsDB := {}
      mReceiptsDB := {}
      mVerifiablesDB := {} }

theorem listed_sampleBlock : Lists (Listed mapNode) sampleBlock := by
  have hempty : Listed mapNode [] 0 {} := ⟨⟨List.nodup_nil, rfl, rfl⟩, nofun, .refl _⟩
  exact ⟨hempty, hempty, hempty⟩

theorem different_items_agree :
    Machine.EveryStep (contentCall mapNode) (Kept mapNode) sampleBlock
        [.addTransaction (sampleItem 1) true, .addVerifiable (sampleItem 2), .addReceipt (sampleItem 3),
          .addVerifiable (sampleItem 4)] ∧
      DecodesCounts mapNode (Machine.final (contentCall mapNode) sampleBlock
        [.addTransaction (sampleItem 1) true, .addVerifiable (sampleItem 2), .addReceipt (sampleItem 3),
          .addVerifiable (sampleItem 4)]) :=
  ((contents_agree_iff mapNode finiteMaps_mapNode emptyNode_round).2 listed_sampleBlock _).mpr
    ⟨.inr (.inr rfl), rfl, rfl, rfl, trivial⟩

/-- A verifiable that is added again is listed and counted again; the trie holds it once. -/
theorem verifiable_twice : FiniteMaps mapNode ∧ Lists (Listed mapNode) sampleBlock ∧
    ¬ Machine.EveryStep (contentCall mapNode) (Kept mapNode) sampleBlock
      [.addVerifiable (sampleItem 2), .addVerifiable (sampleItem 2)] := by
  refine ⟨finiteMaps_mapNode, listed_sampleBlock, fun hkept => ?_⟩
  have hentries := hkept.2.1.1.verifiables.entries
  exact absurd hentries (by decide +kernel)

end CBlock

end Gridnet
