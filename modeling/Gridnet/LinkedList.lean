import Mathlib.Data.List.Pairwise
import Mathlib.Data.List.Nodup

/-! Linked lists with stable positions. Every node keeps the position under which it was made for as long as it is in
the list, whatever is added, erased or taken off the front around it; no position is given twice. Using a position of
a node that is gone, or the front of an empty list, is undefined and answered by `none`. -/

/-- A list whose nodes carry positions; `fresh` is the position of the next node made. -/
structure LinkedList (α : Type*) where
  nodes : List (Nat × α)
  fresh : Nat
  lt_fresh : ∀ node ∈ nodes, node.1 < fresh
  distinct : (nodes.map Prod.fst).Nodup

namespace LinkedList

variable {α : Type*}

def empty : LinkedList α where
  nodes := []
  fresh := 0
  lt_fresh := by simp
  distinct := List.nodup_nil

def elements (l : LinkedList α) : List α := l.nodes.map Prod.snd

def pushBack (l : LinkedList α) (a : α) : LinkedList α where
  nodes := l.nodes ++ [(l.fresh, a)]
  fresh := l.fresh + 1
  lt_fresh := by
    intro node hnode
    rcases List.mem_append.mp hnode with hold | hnew
    · exact Nat.lt_succ_of_lt (l.lt_fresh node hold)
    · rw [List.mem_singleton.mp hnew]
      exact Nat.lt_succ_self _
  distinct := by
    rw [List.map_append, List.map_singleton, ← List.concat_eq_append]
    refine List.Nodup.concat ?_ l.distinct
    intro hmem
    obtain ⟨node, hnode, hposition⟩ := List.mem_map.mp hmem
    exact absurd hposition (Nat.ne_of_lt (l.lt_fresh node hnode))

/-- The position of the last node. -/
def last (l : LinkedList α) : Option Nat := l.nodes.getLast?.map Prod.fst

def front (l : LinkedList α) : Option α := l.nodes.head?.map Prod.snd

/-- What the node at a position holds. -/
def read (l : LinkedList α) (position : Nat) : Option α :=
  (l.nodes.find? fun node => node.1 = position).map Prod.snd

def filterNodes (l : LinkedList α) (keep : Nat × α → Bool) : LinkedList α where
  nodes := l.nodes.filter keep
  fresh := l.fresh
  lt_fresh node hnode := l.lt_fresh node (List.mem_of_mem_filter hnode)
  distinct := l.distinct.sublist (List.filter_sublist.map _)

def erase (l : LinkedList α) (position : Nat) : Option (LinkedList α) :=
  if (l.read position).isSome then some (l.filterNodes fun node => node.1 ≠ position) else none

def popFront (l : LinkedList α) : Option (LinkedList α) :=
  if l.nodes = [] then none
  else some {
    nodes := l.nodes.tail
    fresh := l.fresh
    lt_fresh := fun node hnode => l.lt_fresh node (List.mem_of_mem_tail hnode)
    distinct := l.distinct.sublist ((List.tail_sublist _).map _) }

variable {l l' : LinkedList α} {a : α} {position : Nat}

@[simp] theorem elements_empty : (empty : LinkedList α).elements = [] := rfl

@[simp] theorem elements_pushBack : (l.pushBack a).elements = l.elements ++ [a] := by
  simp [elements, pushBack]

@[simp] theorem last_pushBack : (l.pushBack a).last = some l.fresh := by simp [last, pushBack]

theorem read_eq_some : l.read position = some a ↔ (position, a) ∈ l.nodes := by
  constructor
  · intro hread
    obtain ⟨node, hfound, rfl⟩ := Option.map_eq_some_iff.mp hread
    have hposition : node.1 = position := by simpa using List.find?_some hfound
    rw [← hposition]
    exact List.mem_of_find?_eq_some hfound
  · intro hmem
    obtain ⟨node, hfound⟩ : ∃ node, l.nodes.find? (fun node => decide (node.1 = position)) = some node :=
      Option.isSome_iff_exists.mp (List.find?_isSome.mpr ⟨(position, a), hmem, by simp⟩)
    have hposition : node.1 = position := by simpa using List.find?_some hfound
    have hsame : node = (position, a) :=
      List.inj_on_of_nodup_map l.distinct (List.mem_of_find?_eq_some hfound) hmem hposition
    simp [read, hfound, hsame]

theorem read_pushBack_fresh : (l.pushBack a).read l.fresh = some a := by simp [read_eq_some, pushBack]

theorem read_pushBack_of_read {b : α} (hread : l.read position = some b) :
    (l.pushBack a).read position = some b := by
  rw [read_eq_some] at hread ⊢
  exact List.mem_append_left _ hread

/-- The node at a position of a list without duplicates is the one that holds its element. -/
theorem position_eq_iff (hnodup : l.elements.Nodup) (hread : l.read position = some a)
    {node : Nat × α} (hnode : node ∈ l.nodes) : node.1 = position ↔ node.2 = a := by
  have hmem := read_eq_some.mp hread
  constructor
  · exact fun hposition => congrArg Prod.snd (List.inj_on_of_nodup_map l.distinct hnode hmem hposition)
  · exact fun helement => congrArg Prod.fst (List.inj_on_of_nodup_map hnodup hnode hmem helement)

/-- Erasing at the position of an element of a list without duplicates takes this element out. -/
theorem erase_spec [DecidableEq α] (hnodup : l.elements.Nodup) (hread : l.read position = some a) :
    ∃ l', l.erase position = some l' ∧ l'.elements = l.elements.filter (· ≠ a) ∧
      ∀ p b, l.read p = some b → b ≠ a → l'.read p = some b := by
  refine ⟨l.filterNodes fun node => node.1 ≠ position, by rw [erase, hread]; rfl, ?_, ?_⟩
  · have hkeep : l.nodes.filter (fun node => decide (node.1 ≠ position)) =
        l.nodes.filter (fun node => decide (node.2 ≠ a)) := by
      apply List.filter_congr
      intro node hnode
      simp only [ne_eq, position_eq_iff hnodup hread hnode]
    simp only [elements, filterNodes, hkeep, List.filter_map]
    rfl
  · intro p b hp hne
    rw [read_eq_some] at hp ⊢
    refine List.mem_filter.mpr ⟨hp, ?_⟩
    simpa using fun hposition => hne ((position_eq_iff hnodup hread hp).mp hposition)

/-- Taking the front off a list without duplicates. -/
theorem popFront_spec {rest : List α} (helements : l.elements = a :: rest) :
    l.front = some a ∧ ∃ l', l.popFront = some l' ∧ l'.elements = rest ∧
      ∀ p b, l.read p = some b → b ≠ a → l'.read p = some b := by
  obtain ⟨node, nodes, hnodes, rfl, rfl⟩ := List.map_eq_cons_iff.mp helements
  refine ⟨by simp [front, hnodes], ?_⟩
  rw [popFront, if_neg (by simp [hnodes])]
  refine ⟨_, rfl, by simp [elements, hnodes], ?_⟩
  intro p b hp hne
  rw [read_eq_some] at hp ⊢
  rw [hnodes] at hp
  rcases List.mem_cons.mp hp with rfl | hp
  · exact absurd rfl hne
  · simpa [hnodes] using hp

theorem popFront_length (hpop : l.popFront = some l') : l'.nodes.length < l.nodes.length := by
  rw [popFront] at hpop
  split at hpop
  · cases hpop
  · rename_i hnonempty
    rw [← Option.some.inj hpop]
    simp only [List.length_tail]
    exact Nat.sub_lt (List.length_pos_iff.mpr hnonempty) Nat.one_pos

end LinkedList
