import Gridnet.Bytes
import Gridnet.LinkedList
import Gridnet.Machine
import Gridnet.RecencyList
import Mathlib.Data.List.AList

/-! The unordered block cache. A map gives each cached block and the position of its id in the order list, whose back
is the id used last. Every operation on it is defined, and over any run of operations it is the least-recently-used
cache. -/

namespace Gridnet

variable {Block : Type}

/-- The cache: the map, the order list and the most blocks it may hold. -/
structure UnorderedCache (Block : Type) where
  mBlockUnorderedCacheMap : AList fun _ : Bytes => Block × Nat
  mBlockUnorderedCacheOrder : LinkedList Bytes
  mBlockUnorderedCacheMaxSize : Nat

namespace UnorderedCache

/-- The cache of a new manager. -/
def empty (maxSize : Nat) : UnorderedCache Block where
  mBlockUnorderedCacheMap := ∅
  mBlockUnorderedCacheOrder := .empty
  mBlockUnorderedCacheMaxSize := maxSize

def size (c : UnorderedCache Block) : Nat := c.mBlockUnorderedCacheMap.entries.length

def find (c : UnorderedCache Block) (blockID : Bytes) : Option (Block × Nat) :=
  c.mBlockUnorderedCacheMap.lookup blockID

/-- Moves the id of a map entry to the back of the order list. -/
def moveToBack (c : UnorderedCache Block) (blockID : Bytes) (entry : Block × Nat) : Option (UnorderedCache Block) := do
  let erased ← c.mBlockUnorderedCacheOrder.erase entry.2
  let order := erased.pushBack blockID
  let position ← order.last
  return { c with
    mBlockUnorderedCacheMap := c.mBlockUnorderedCacheMap.insert blockID (entry.1, position)
    mBlockUnorderedCacheOrder := order }

/-- Drops the block at the front of the order list. -/
def evictOldest (c : UnorderedCache Block) : Option (UnorderedCache Block) := do
  let oldestBlockID ← c.mBlockUnorderedCacheOrder.front
  let order ← c.mBlockUnorderedCacheOrder.popFront
  return { c with
    mBlockUnorderedCacheMap := c.mBlockUnorderedCacheMap.erase oldestBlockID
    mBlockUnorderedCacheOrder := order }

def addBlockToUnorderedCache (getID : Block → Bytes) (c : UnorderedCache Block) :
    Option Block → Option (UnorderedCache Block)
  | none => some c
  | some block => do
      let rawID := getID block
      let blockID := if rawID.length = 32 then rawID else getID block
      match c.find blockID with
      | some entry => c.moveToBack blockID entry
      | none =>
          let order := c.mBlockUnorderedCacheOrder.pushBack blockID
          let listIt ← order.last
          let added := { c with
            mBlockUnorderedCacheMap := c.mBlockUnorderedCacheMap.insert blockID (block, listIt)
            mBlockUnorderedCacheOrder := order }
          if added.size > c.mBlockUnorderedCacheMaxSize then added.evictOldest else some added

def removeBlockFromUnorderedCache (c : UnorderedCache Block) (blockID : Bytes) : Option (UnorderedCache Block) :=
  match c.find blockID with
  | none => some c
  | some entry => do
      let order ← c.mBlockUnorderedCacheOrder.erase entry.2
      return { c with
        mBlockUnorderedCacheMap := c.mBlockUnorderedCacheMap.erase blockID
        mBlockUnorderedCacheOrder := order }

def getBlockFromUnorderedCache (c : UnorderedCache Block) (blockID : Bytes) :
    Option (Option Block × UnorderedCache Block) :=
  match c.find blockID with
  | none => some (none, c)
  | some entry => do
      let moved ← c.moveToBack blockID entry
      return (some entry.1, moved)

/-- While there are too many blocks, the oldest one goes. -/
def trimCache (c : UnorderedCache Block) : Option (UnorderedCache Block) :=
  if c.size > c.mBlockUnorderedCacheMaxSize then
    match _hevict : c.evictOldest with
    | none => none
    | some evicted => evicted.trimCache
  else some c
termination_by c.mBlockUnorderedCacheOrder.nodes.length
decreasing_by
  simp only [evictOldest, Option.bind_eq_bind, Option.bind_eq_some_iff, Option.pure_def, Option.some.injEq] at _hevict
  obtain ⟨_, _, order, hpop, rfl⟩ := _hevict
  exact LinkedList.popFront_length hpop

def setBlockUnorderedCacheMaxSize (c : UnorderedCache Block) (maxSize : Nat) : Option (UnorderedCache Block) :=
  trimCache { c with mBlockUnorderedCacheMaxSize := maxSize }

/-- The calls. -/
inductive Call (Block : Type) where
  | add (block : Option Block)
  | get (blockID : Bytes)
  | remove (blockID : Bytes)
  | setMaxSize (maxSize : Nat)

variable (getID : Block → Bytes)

/-- One call: the block it returns, if it returns one, and the cache behind it. Behind undefined behaviour there is
none. -/
def call (c : UnorderedCache Block) : Call Block → Option (Option Block × UnorderedCache Block)
  | .add block => (c.addBlockToUnorderedCache getID block).map (none, ·)
  | .get blockID => c.getBlockFromUnorderedCache blockID
  | .remove blockID => (c.removeBlockFromUnorderedCache blockID).map (none, ·)
  | .setMaxSize maxSize => (c.setBlockUnorderedCacheMaxSize maxSize).map (none, ·)

def step (state : Option (UnorderedCache Block)) (operation : Call Block) :
    Option Block × Option (UnorderedCache Block) :=
  match state.bind (·.call getID operation) with
  | some (returned, c) => (returned, some c)
  | none => (none, none)

/-- The block cached under an id. -/
def blockOf (c : UnorderedCache Block) (blockID : Bytes) : Option Block :=
  (c.find blockID).map Prod.fst

/-- The cached blocks in the order of the list. -/
def recency (c : UnorderedCache Block) : RecencyList Bytes Block :=
  ⟨RecencyList.tabulate c.blockOf c.mBlockUnorderedCacheOrder.elements, c.mBlockUnorderedCacheMaxSize⟩

/-- The order list has exactly the ids of the map, each once, and every position in the map is that of its own id. -/
structure Linked (c : UnorderedCache Block) : Prop where
  once : c.mBlockUnorderedCacheOrder.elements.Nodup
  mem_order : ∀ id, id ∈ c.mBlockUnorderedCacheOrder.elements ↔ id ∈ c.mBlockUnorderedCacheMap
  position : ∀ id entry, c.find id = some entry →
    c.mBlockUnorderedCacheOrder.read entry.2 = some id

structure Coherent (c : UnorderedCache Block) : Prop extends c.Linked where
  fits : c.size ≤ c.mBlockUnorderedCacheMaxSize

/-- The cache as a reference: the same calls on the least-recently-used cache. -/
def reference (lru : RecencyList Bytes Block) : Call Block → Option Block × RecencyList Bytes Block
  | .add none => (none, lru)
  | .add (some block) => (none, lru.add (getID block) block)
  | .get blockID => lru.fetch blockID
  | .remove blockID => (none, lru.remove blockID)
  | .setMaxSize maxSize => (none, lru.resize maxSize)

namespace Linked

variable {c : UnorderedCache Block} (hlinked : c.Linked) {id : Bytes}
include hlinked

theorem mem_iff : id ∈ c.mBlockUnorderedCacheOrder.elements ↔ (c.blockOf id).isSome := by
  rw [hlinked.mem_order, blockOf, Option.isSome_map, find, AList.lookup_isSome]

theorem length_order : c.mBlockUnorderedCacheOrder.elements.length = c.size := by
  have hsame : c.mBlockUnorderedCacheOrder.elements.Perm c.mBlockUnorderedCacheMap.keys :=
    (List.perm_ext_iff_of_nodup hlinked.once c.mBlockUnorderedCacheMap.keys_nodup).mpr hlinked.mem_order
  rw [hsame.length_eq, size, AList.keys, List.keys, List.length_map]

theorem length_recency : c.recency.entries.length = c.size :=
  (RecencyList.length_tabulate fun _ hid => hlinked.mem_iff.mp hid).trans hlinked.length_order

theorem lookup_recency : c.recency.lookup id = c.blockOf id :=
  RecencyList.lookup_tabulate fun _ => hlinked.mem_iff

section WithoutId

variable {order : LinkedList Bytes}
  (helements : order.elements = c.mBlockUnorderedCacheOrder.elements.filter (· ≠ id))
  (hread : ∀ position other, c.mBlockUnorderedCacheOrder.read position = some other → other ≠ id →
    order.read position = some other)
include helements hread

/-- An id is taken out of the map and of the order list. -/
theorem removed_spec {c' : UnorderedCache Block}
    (hc' : c' = { c with
      mBlockUnorderedCacheMap := c.mBlockUnorderedCacheMap.erase id, mBlockUnorderedCacheOrder := order }) :
    c'.Linked ∧ c'.recency = c.recency.remove id := by
  subst hc'
  refine ⟨⟨?_, ?_, ?_⟩, ?_⟩
  · simpa only [helements] using hlinked.once.filter _
  · intro other
    simp only [helements, List.mem_filter, hlinked.mem_order, AList.mem_erase, decide_eq_true_eq, and_comm]
  · intro other entry hentry
    have hother : other ≠ id := by
      rintro rfl
      rw [find, AList.lookup_erase] at hentry
      cases hentry
    rw [find, AList.lookup_erase_ne hother] at hentry
    exact hread _ _ (hlinked.position other entry hentry) hother
  · have hsame : ∀ other ∈ order.elements, blockOf { c with
        mBlockUnorderedCacheMap := c.mBlockUnorderedCacheMap.erase id, mBlockUnorderedCacheOrder := order } other =
        c.blockOf other := by
      intro other hother
      rw [helements, List.mem_filter, decide_eq_true_eq] at hother
      simp only [blockOf, find, AList.lookup_erase_ne hother.2]
    simp only [recency, RecencyList.remove]
    rw [RecencyList.tabulate_congr hsame, helements, RecencyList.tabulate_filter]

/-- An id is put at the back of the order list, and its position in the map. -/
theorem placed_spec {block : Block} {c' : UnorderedCache Block}
    (hc' : c' = { c with
      mBlockUnorderedCacheMap := c.mBlockUnorderedCacheMap.insert id (block, order.fresh)
      mBlockUnorderedCacheOrder := order.pushBack id }) :
    c'.Linked ∧ c'.recency = c.recency.refresh id block := by
  subst hc'
  have habsent : id ∉ order.elements := by
    rw [helements]
    simp
  refine ⟨⟨?_, ?_, ?_⟩, ?_⟩
  · simp only [LinkedList.elements_pushBack, ← List.concat_eq_append]
    refine List.Nodup.concat habsent ?_
    rw [helements]
    exact hlinked.once.filter _
  · intro other
    by_cases hother : other = id
    · simp [hother]
    · simp [helements, hother, hlinked.mem_order]
  · intro other entry hentry
    by_cases hother : other = id
    · subst hother
      rw [find, AList.lookup_insert] at hentry
      rw [← Option.some.inj hentry]
      exact LinkedList.read_pushBack_fresh
    · rw [find, AList.lookup_insert_ne hother] at hentry
      exact LinkedList.read_pushBack_of_read (hread _ _ (hlinked.position other entry hentry) hother)
  · have hsame : ∀ other ∈ order.elements, blockOf { c with
        mBlockUnorderedCacheMap := c.mBlockUnorderedCacheMap.insert id (block, order.fresh)
        mBlockUnorderedCacheOrder := order.pushBack id } other = c.blockOf other := by
      intro other hother
      rw [helements, List.mem_filter, decide_eq_true_eq] at hother
      simp only [blockOf, find, AList.lookup_insert_ne hother.2]
    simp only [recency, RecencyList.refresh, RecencyList.remove, LinkedList.elements_pushBack]
    rw [RecencyList.tabulate_append, RecencyList.tabulate_congr hsame, helements, RecencyList.tabulate_filter]
    simp [RecencyList.tabulate, blockOf, find]

end WithoutId

/-- The id of an entry goes to the back; nothing else changes. -/
theorem moveToBack_spec {entry : Block × Nat} (hentry : c.find id = some entry) :
    ∃ c', c.moveToBack id entry = some c' ∧ c'.Linked ∧ c'.recency = c.recency.refresh id entry.1 := by
  obtain ⟨erased, herase, helements, hread⟩ :=
    LinkedList.erase_spec hlinked.once (hlinked.position id entry hentry)
  exact ⟨_, by simp [moveToBack, herase], hlinked.placed_spec helements hread rfl⟩

/-- Evicting drops the first entry. -/
theorem evictOldest_spec (hsome : c.size ≠ 0) : ∃ c', c.evictOldest = some c' ∧ c'.Linked ∧
    c'.recency = { c.recency with entries := c.recency.entries.tail } := by
  obtain ⟨oldest, rest, horder⟩ : ∃ oldest rest, c.mBlockUnorderedCacheOrder.elements = oldest :: rest := by
    apply List.exists_cons_of_ne_nil
    intro hnil
    rw [← hlinked.length_order, hnil] at hsome
    exact hsome rfl
  obtain ⟨hfront, order, hpop, helements, hread⟩ := LinkedList.popFront_spec horder
  have hrest : rest = c.mBlockUnorderedCacheOrder.elements.filter (· ≠ oldest) := by
    have honce := hlinked.once
    rw [horder] at honce ⊢
    rw [List.filter_cons_of_neg (by simp)]
    symm
    rw [List.filter_eq_self]
    intro other hother
    simpa using fun heq : other = oldest => (List.nodup_cons.mp honce).1 (heq ▸ hother)
  obtain ⟨v, hv⟩ : ∃ v, c.blockOf oldest = some v :=
    Option.isSome_iff_exists.mp (hlinked.mem_iff.mp (horder ▸ List.mem_cons_self))
  obtain ⟨hlinked', hrecency⟩ := hlinked.removed_spec (helements.trans hrest) hread rfl
  refine ⟨_, by simp [evictOldest, hfront, hpop], hlinked', hrecency.trans ?_⟩
  simp only [recency, RecencyList.remove]
  rw [← RecencyList.tabulate_filter, ← hrest, horder, RecencyList.tabulate_cons_of_some hv, List.tail_cons]

theorem trimCache_spec : ∃ c', c.trimCache = some c' ∧ c'.Coherent ∧ c'.recency = c.recency.trim := by
  fun_induction trimCache c with
  | case1 c hover hevict =>
      obtain ⟨c', hsome, -⟩ := hlinked.evictOldest_spec (Nat.ne_zero_of_lt hover)
      rw [hevict] at hsome
      cases hsome
  | case2 c hover evicted hevict ih =>
      obtain ⟨c', hsome, hlinked', hrecency⟩ := hlinked.evictOldest_spec (Nat.ne_zero_of_lt hover)
      obtain rfl := Option.some.inj (hevict.symm.trans hsome)
      obtain ⟨last, htrim, hcoherent, hlast⟩ := ih hlinked'
      refine ⟨last, htrim, hcoherent, ?_⟩
      rw [hlast, hrecency]
      exact RecencyList.trim_tail (by rw [hlinked.length_recency]; exact hover)
  | case3 c hover =>
      have hfits : c.size ≤ c.mBlockUnorderedCacheMaxSize := Nat.le_of_not_lt hover
      refine ⟨c, rfl, ⟨hlinked, hfits⟩, (RecencyList.trim_eq_self ?_).symm⟩
      rw [hlinked.length_recency]
      exact hfits

end Linked

namespace Coherent

variable {c : UnorderedCache Block} (hcoherent : c.Coherent)
include hcoherent

theorem touch_spec {id : Bytes} {entry : Block × Nat} (hentry : c.find id = some entry) :
    ∃ c', c.moveToBack id entry = some c' ∧ c'.Coherent ∧ c'.recency = c.recency.refresh id entry.1 := by
  obtain ⟨c', hmoved, hlinked, hrecency⟩ := hcoherent.moveToBack_spec hentry
  refine ⟨c', hmoved, ⟨hlinked, ?_⟩, hrecency⟩
  have hthere : (c.recency.lookup id).isSome := by
    rw [hcoherent.lookup_recency, blockOf, hentry, Option.map_some, Option.isSome_some]
  calc c'.size = (c.recency.refresh id entry.1).entries.length := by rw [← hlinked.length_recency, hrecency]
    _ ≤ c.recency.entries.length := RecencyList.length_refresh_le hthere
    _ ≤ c.mBlockUnorderedCacheMaxSize := hcoherent.length_recency.trans_le hcoherent.fits
    _ = c'.mBlockUnorderedCacheMaxSize := (congrArg RecencyList.capacity hrecency).symm

theorem add_spec (block : Block) : ∃ c', c.addBlockToUnorderedCache getID (some block) = some c' ∧ c'.Coherent ∧
    c'.recency = c.recency.add (getID block) block := by
  have hlookup : c.recency.lookup (getID block) = c.blockOf (getID block) := hcoherent.lookup_recency
  have hlength := hcoherent.length_recency
  have hfits := hcoherent.fits
  cases hentry : c.find (getID block) with
  | some entry =>
      obtain ⟨c', hmoved, hcoherent', hrecency⟩ := hcoherent.touch_spec hentry
      have hthere : c.recency.lookup (getID block) = some entry.1 := by rw [hlookup, blockOf, hentry, Option.map_some]
      refine ⟨c', by simp [addBlockToUnorderedCache, hentry, hmoved], hcoherent', ?_⟩
      rw [RecencyList.add, hthere, Option.getD_some, ← hrecency, RecencyList.trim_eq_self]
      exact hcoherent'.length_recency.trans_le hcoherent'.fits
  | none =>
      have habsent : getID block ∉ c.mBlockUnorderedCacheOrder.elements := by
        rw [hcoherent.mem_iff, blockOf, hentry]
        exact Bool.false_ne_true
      have hself : c.mBlockUnorderedCacheOrder.elements =
          c.mBlockUnorderedCacheOrder.elements.filter (· ≠ getID block) := by
        symm
        rw [List.filter_eq_self]
        intro other hother
        simpa using fun heq : other = getID block => habsent (heq ▸ hother)
      obtain ⟨added, hadded⟩ : ∃ added, added = { c with
          mBlockUnorderedCacheMap :=
            c.mBlockUnorderedCacheMap.insert (getID block) (block, c.mBlockUnorderedCacheOrder.fresh)
          mBlockUnorderedCacheOrder := c.mBlockUnorderedCacheOrder.pushBack (getID block) } := ⟨_, rfl⟩
      obtain ⟨hlinked, hrecency⟩ := hcoherent.placed_spec hself (fun _ _ h _ => h) hadded
      have hadd : c.addBlockToUnorderedCache getID (some block) =
          if added.size > added.mBlockUnorderedCacheMaxSize then added.evictOldest else some added := by
        simp [addBlockToUnorderedCache, hentry, hadded]
      have hcapacity : added.mBlockUnorderedCacheMaxSize = c.mBlockUnorderedCacheMaxSize :=
        congrArg RecencyList.capacity hrecency
      have hsize : added.size ≤ added.mBlockUnorderedCacheMaxSize + 1 := by
        rw [hcapacity, ← hlinked.length_recency, hrecency]
        exact RecencyList.length_refresh_le_succ.trans (Nat.succ_le_succ (hlength.trans_le hfits))
      have htarget : c.recency.add (getID block) block = added.recency.trim := by
        rw [RecencyList.add, hlookup, blockOf, hentry, Option.map_none, Option.getD_none, hrecency]
      rw [hadd, htarget]
      split_ifs with hover
      · have hlong : added.recency.entries.length = added.recency.capacity + 1 := by
          rw [hlinked.length_recency]
          exact le_antisymm hsize hover
        obtain ⟨c', hevict, hlinked', htail⟩ := hlinked.evictOldest_spec (Nat.ne_zero_of_lt hover)
        refine ⟨c', hevict, ⟨hlinked', ?_⟩, htail.trans (RecencyList.trim_eq_tail hlong).symm⟩
        rw [← hlinked'.length_recency, htail, List.length_tail, hlong, Nat.add_sub_cancel]
        exact (congrArg RecencyList.capacity htail).ge
      · have hshort := Nat.le_of_not_lt hover
        refine ⟨added, rfl, ⟨hlinked, hshort⟩, (RecencyList.trim_eq_self ?_).symm⟩
        exact hlinked.length_recency.trans_le hshort

theorem get_spec (id : Bytes) : ∃ c', c.getBlockFromUnorderedCache id = some (c.blockOf id, c') ∧ c'.Coherent ∧
    (c.blockOf id, c'.recency) = c.recency.fetch id := by
  have hlookup : c.recency.lookup id = c.blockOf id := hcoherent.lookup_recency
  cases hentry : c.find id with
  | none =>
      have hnone : c.blockOf id = none := by rw [blockOf, hentry, Option.map_none]
      refine ⟨c, by rw [getBlockFromUnorderedCache, hentry, hnone], hcoherent, ?_⟩
      rw [RecencyList.fetch, hlookup, hnone, Option.map_none, Option.getD_none]
  | some entry =>
      have hsome : c.blockOf id = some entry.1 := by rw [blockOf, hentry, Option.map_some]
      obtain ⟨c', hmoved, hcoherent', hrecency⟩ := hcoherent.touch_spec hentry
      refine ⟨c', by simp [getBlockFromUnorderedCache, hentry, hmoved, hsome], hcoherent', ?_⟩
      rw [RecencyList.fetch, hlookup, hsome, Option.map_some, Option.getD_some, hrecency]

theorem remove_spec (id : Bytes) : ∃ c', c.removeBlockFromUnorderedCache id = some c' ∧ c'.Coherent ∧
    c'.recency = c.recency.remove id := by
  cases hentry : c.find id with
  | none =>
      refine ⟨c, by rw [removeBlockFromUnorderedCache, hentry], hcoherent, ?_⟩
      refine (RecencyList.remove_of_absent ?_).symm
      rw [hcoherent.lookup_recency, blockOf, hentry, Option.map_none]
  | some entry =>
      obtain ⟨order, herase, helements, hread⟩ :=
        LinkedList.erase_spec hcoherent.once (hcoherent.position id entry hentry)
      obtain ⟨hlinked, hrecency⟩ := hcoherent.removed_spec helements hread rfl
      refine ⟨_, by simp [removeBlockFromUnorderedCache, hentry, herase], ⟨hlinked, ?_⟩, hrecency⟩
      rw [← hlinked.length_recency, hrecency]
      exact (List.length_filter_le _ _).trans (hcoherent.length_recency.trans_le hcoherent.fits)

/-- Every call is defined, keeps the cache coherent and does what it does to the reference. -/
theorem call_spec (operation : Call Block) : ∃ returned c', c.call getID operation = some (returned, c') ∧
    c'.Coherent ∧ reference getID c.recency operation = (returned, c'.recency) := by
  cases operation with
  | add block =>
      cases block with
      | none => exact ⟨none, c, rfl, hcoherent, rfl⟩
      | some block =>
          obtain ⟨c', hadd, hcoherent', hrecency⟩ := hcoherent.add_spec getID block
          exact ⟨none, c', by rw [call, hadd, Option.map_some], hcoherent', by rw [reference, hrecency]⟩
  | get id =>
      obtain ⟨c', hget, hcoherent', hfetch⟩ := hcoherent.get_spec id
      exact ⟨_, c', hget, hcoherent', hfetch.symm⟩
  | remove id =>
      obtain ⟨c', hremove, hcoherent', hrecency⟩ := hcoherent.remove_spec id
      exact ⟨none, c', by rw [call, hremove, Option.map_some], hcoherent', by rw [reference, hrecency]⟩
  | setMaxSize maxSize =>
      have hlinked : Linked { c with mBlockUnorderedCacheMaxSize := maxSize } :=
        ⟨hcoherent.once, hcoherent.mem_order, hcoherent.position⟩
      obtain ⟨c', htrim, hcoherent', hrecency⟩ := hlinked.trimCache_spec
      exact ⟨none, c', by rw [call, setBlockUnorderedCacheMaxSize, htrim, Option.map_some], hcoherent', by
        rw [reference, hrecency]; rfl⟩

/-- A block that is cached behind a call was cached before, or is the block of an add under a free id. -/
theorem blockOf_call {operation : Call Block} {returned : Option Block} {c' : UnorderedCache Block}
    (hcall : c.call getID operation = some (returned, c')) {id : Bytes} {block : Block}
    (hblock : c'.blockOf id = some block) :
    c.blockOf id = some block ∨
      c.blockOf id = none ∧ operation = .add (some block) ∧ getID block = id := by
  obtain ⟨returned', c'', hcall', hcoherent', hreference⟩ := hcoherent.call_spec getID operation
  obtain ⟨rfl, rfl⟩ := Prod.mk.inj (Option.some.inj (hcall.symm.trans hcall'))
  have hmem : (id, block) ∈ (reference getID c.recency operation).2.entries := by
    rw [hreference]
    refine RecencyList.mem_tabulate.mpr ⟨hcoherent'.mem_iff.mpr ?_, hblock⟩
    rw [hblock, Option.isSome_some]
  have hbefore : (id, block) ∈ c.recency.entries → c.blockOf id = some block :=
    fun hold => (RecencyList.mem_tabulate.mp hold).2
  cases operation with
  | add added =>
      cases added with
      | none => exact .inl (hbefore hmem)
      | some added =>
          rcases RecencyList.mem_add hmem with hold | ⟨hfree, hnew⟩
          · exact .inl (hbefore hold)
          · obtain ⟨rfl, rfl⟩ := Prod.mk.inj hnew
            exact .inr ⟨hcoherent.lookup_recency.symm.trans hfree, rfl, rfl⟩
  | get _ => exact .inl (hbefore (RecencyList.mem_fetch hmem))
  | remove _ => exact .inl (hbefore (List.mem_of_mem_filter hmem))
  | setMaxSize _ => exact .inl (hbefore (List.mem_of_mem_drop hmem))

end Coherent

theorem coherent_empty (maxSize : Nat) : (empty maxSize : UnorderedCache Block).Coherent where
  once := List.nodup_nil
  mem_order _ := iff_of_false List.not_mem_nil (AList.notMem_empty _)
  position _ _ hentry := by cases hentry
  fits := Nat.zero_le _

/-- The state is a coherent cache, and its blocks in their order are those of the reference. -/
def Shows (state : Option (UnorderedCache Block)) (lru : RecencyList Bytes Block) : Prop :=
  ∃ c, state = some c ∧ c.Coherent ∧ c.recency = lru

theorem step_shows {state : Option (UnorderedCache Block)} {lru : RecencyList Bytes Block}
    (hshows : Shows state lru) (operation : Call Block) :
    (step getID state operation).1 = (reference getID lru operation).1 ∧
      Shows (step getID state operation).2 (reference getID lru operation).2 := by
  obtain ⟨c, rfl, hcoherent, rfl⟩ := hshows
  obtain ⟨returned, c', hcall, hcoherent', hreference⟩ := hcoherent.call_spec getID operation
  rw [step, Option.bind_some, hcall, hreference]
  exact ⟨rfl, c', rfl, hcoherent', rfl⟩

/-- The block cached under an id in a state. -/
def cached (state : Option (UnorderedCache Block)) (id : Bytes) : Option Block := state.bind (·.blockOf id)

/-- The calls whose block is put under an id, if there is none. -/
def addedUnder (id : Bytes) : Call Block → Option Block
  | .add (some block) => if getID block = id then some block else none
  | _ => none

theorem addedUnder_eq_some {id : Bytes} {operation : Call Block} {block : Block} :
    addedUnder getID id operation = some block ↔ operation = .add (some block) ∧ getID block = id := by
  rcases operation with (_ | added) | _ | _ | _ <;> simp only [addedUnder, reduceCtorEq, false_and, Call.add.injEq,
    Option.some.injEq]
  split_ifs with hid
  · simp only [Option.some.injEq]
    exact ⟨fun h => ⟨h, h ▸ hid⟩, And.left⟩
  · exact iff_of_false not_false fun h => hid (h.1 ▸ h.2)

theorem step_coherent (state : Option (UnorderedCache Block)) (operation : Call Block)
    (hstate : ∃ c, state = some c ∧ c.Coherent) : ∃ c, (step getID state operation).2 = some c ∧ c.Coherent := by
  obtain ⟨c, rfl, hcoherent⟩ := hstate
  obtain ⟨-, c', hnext, hcoherent', -⟩ := step_shows getID ⟨c, rfl, hcoherent, rfl⟩ operation
  exact ⟨c', hnext, hcoherent'⟩

theorem step_cached (id : Bytes) (state : Option (UnorderedCache Block)) (operation : Call Block) (block : Block)
    (hstate : ∃ c, state = some c ∧ c.Coherent) (hblock : cached (step getID state operation).2 id = some block) :
    cached state id = some block ∨ cached state id = none ∧ addedUnder getID id operation = some block := by
  obtain ⟨c, rfl, hcoherent⟩ := hstate
  obtain ⟨returned, c', hcall, -⟩ := hcoherent.call_spec getID operation
  rw [step, Option.bind_some, hcall] at hblock
  rw [addedUnder_eq_some]
  exact hcoherent.blockOf_call getID hcall hblock

/-- After any calls the cache is coherent and holds, in this order, the blocks of the least-recently-used cache; all
gets were answered alike, and a get now answers with the block that was added under its id when there was none, behind
which there always was one, if there is such a block, and with null otherwise. -/
theorem unorderedCache_lru (maxSize : Nat) (calls : List (Call Block)) :
    ∃ c, Machine.final (step getID) (some (empty maxSize)) calls = some c ∧ c.Coherent ∧
      c.recency = Machine.final (reference getID) ⟨[], maxSize⟩ calls ∧
      Machine.answers (step getID) (some (empty maxSize)) calls =
        Machine.answers (reference getID) ⟨[], maxSize⟩ calls ∧
      ∀ id, (∃ c', c.getBlockFromUnorderedCache id = some (c.blockOf id, c')) ∧
        ∀ block, c.blockOf id = some block ↔
          ∃ before since, calls = before ++ .add (some block) :: since ∧ getID block = id ∧
            cached (Machine.final (step getID) (some (empty maxSize)) before) id = none ∧
            ∀ rest, rest <+: since → (cached (Machine.final (step getID) (some (empty maxSize))
              (before ++ .add (some block) :: rest)) id).isSome := by
  have hstart : Shows (some (empty maxSize : UnorderedCache Block)) ⟨[], maxSize⟩ :=
    ⟨_, rfl, coherent_empty maxSize, rfl⟩
  obtain ⟨hanswers, c, hfinal, hcoherent, hrecency⟩ :=
    Machine.simulation (R := Shows) (fun _ _ operation h => step_shows getID h operation) hstart calls
  refine ⟨c, hfinal, hcoherent, hrecency, hanswers, ?_⟩
  intro id
  obtain ⟨c', hget, -⟩ := hcoherent.get_spec id
  refine ⟨⟨c', hget⟩, ?_⟩
  intro block
  have hheld := Machine.holding_final (fun state => ∃ c : UnorderedCache Block, state = some c ∧ c.Coherent)
    (cached · id) (addedUnder getID id) (step_cached getID id) (step_coherent getID) ⟨_, rfl, coherent_empty maxSize⟩
    rfl calls (v := block)
  simp only [hfinal, addedUnder_eq_some, and_assoc] at hheld
  refine hheld.trans ?_
  constructor
  · rintro ⟨before, _, since, rfl, rfl, hid, hkept⟩
    exact ⟨before, since, rfl, hid, hkept⟩
  · rintro ⟨before, since, rfl, hid, hkept⟩
    exact ⟨before, _, since, rfl, rfl, hid, hkept⟩

end UnorderedCache
end Gridnet
