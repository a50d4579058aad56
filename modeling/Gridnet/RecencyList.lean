import Mathlib.Data.List.Nodup

/-! Least-recently-used caches, for reference: the entries in order of last use, the latest at the end. An entry that
is added or fetched goes to the end; beyond the capacity the first entries are dropped. -/

/-- A cache of values under keys. -/
structure RecencyList (K V : Type*) where
  entries : List (K × V)
  capacity : Nat

namespace RecencyList

variable {K V : Type*}

/-- The values of a map, in an order of its keys. -/
def tabulate (f : K → Option V) (keys : List K) : List (K × V) := keys.filterMap fun k => (f k).map (Prod.mk k)

/-- The latest entries, as many as the capacity allows. -/
def trim (c : RecencyList K V) : RecencyList K V :=
  { c with entries := c.entries.drop (c.entries.length - c.capacity) }

section Uses

variable [DecidableEq K] (c : RecencyList K V)

def lookup (k : K) : Option V := (c.entries.find? fun e => e.1 = k).map Prod.snd

def remove (k : K) : RecencyList K V := { c with entries := c.entries.filter fun e => e.1 ≠ k }

/-- The entry goes behind all others. -/
def refresh (k : K) (v : V) : RecencyList K V := { c with entries := (c.remove k).entries ++ [(k, v)] }

/-- A key that is there keeps its value. -/
def add (k : K) (v : V) : RecencyList K V := (c.refresh k ((c.lookup k).getD v)).trim

def fetch (k : K) : Option V × RecencyList K V := (c.lookup k, ((c.lookup k).map (c.refresh k)).getD c)

def resize (capacity : Nat) : RecencyList K V := trim { c with capacity }

end Uses

variable {f g : K → Option V} {keys : List K} {k : K} {v : V} {capacity : Nat}

@[simp] theorem tabulate_nil : tabulate f [] = [] := rfl

theorem tabulate_cons_of_some {rest : List K} (hvalue : f k = some v) :
    tabulate f (k :: rest) = (k, v) :: tabulate f rest := by
  simp [tabulate, hvalue]

theorem tabulate_append {rest : List K} : tabulate f (keys ++ rest) = tabulate f keys ++ tabulate f rest := by
  simp [tabulate]

theorem tabulate_congr (hsame : ∀ k ∈ keys, f k = g k) : tabulate f keys = tabulate g keys := by
  apply List.filterMap_congr
  intro k hk
  rw [hsame k hk]

theorem length_tabulate (hall : ∀ k ∈ keys, (f k).isSome) : (tabulate f keys).length = keys.length := by
  induction keys with
  | nil => rfl
  | cons k keys ih =>
      obtain ⟨hk, hkeys⟩ := List.forall_mem_cons.mp hall
      obtain ⟨v, hv⟩ := Option.isSome_iff_exists.mp hk
      rw [tabulate_cons_of_some hv, List.length_cons, List.length_cons, ih hkeys]

theorem trim_eq_self {c : RecencyList K V} (hfits : c.entries.length ≤ c.capacity) : c.trim = c := by
  rw [trim, Nat.sub_eq_zero_of_le hfits, List.drop_zero]

/-- An entry too many is the first one. -/
theorem trim_eq_tail {c : RecencyList K V} (hover : c.entries.length = c.capacity + 1) :
    c.trim = { c with entries := c.entries.tail } := by
  rw [trim, hover, Nat.add_sub_cancel_left, List.drop_one]

/-- While there are too many, the first one goes. -/
theorem trim_tail {c : RecencyList K V} (hover : c.capacity < c.entries.length) :
    trim { c with entries := c.entries.tail } = c.trim := by
  have hdropped : c.entries.tail.drop (c.entries.tail.length - c.capacity) =
      c.entries.drop (c.entries.length - c.capacity) := by
    rw [← List.drop_one, List.drop_drop, List.length_drop]
    congr 1
    omega
  simp only [trim, hdropped]

theorem mem_tabulate {e : K × V} : e ∈ tabulate f keys ↔ e.1 ∈ keys ∧ f e.1 = some e.2 := by
  simp only [tabulate, List.mem_filterMap, Option.map_eq_some_iff]
  constructor
  · rintro ⟨k, hk, v, hv, rfl⟩
    exact ⟨hk, hv⟩
  · rintro ⟨hk, hv⟩
    exact ⟨e.1, hk, e.2, hv, rfl⟩

variable [DecidableEq K]

theorem tabulate_filter : tabulate f (keys.filter (· ≠ k)) = (tabulate f keys).filter fun e => e.1 ≠ k := by
  induction keys with
  | nil => rfl
  | cons head keys ih =>
      cases hv : f head with
      | none => by_cases hk : head = k <;> simp_all [tabulate]
      | some v =>
          rw [tabulate_cons_of_some hv]
          by_cases hk : head = k
          · rw [List.filter_cons_of_neg (by simpa using hk), List.filter_cons_of_neg (by simpa using hk), ih]
          · rw [List.filter_cons_of_pos (by simpa using hk), List.filter_cons_of_pos (by simpa using hk),
              tabulate_cons_of_some hv, ih]

theorem find_tabulate :
    (tabulate f keys).find? (fun e => e.1 = k) = if k ∈ keys then (f k).map (Prod.mk k) else none := by
  induction keys with
  | nil => rfl
  | cons head keys ih =>
      by_cases hk : head = k
      · subst hk
        cases hv : f head with
        | none => simpa [tabulate, hv] using ih
        | some v => simp [tabulate_cons_of_some hv]
      · have hmem : k ∈ head :: keys ↔ k ∈ keys := by simp [Ne.symm hk]
        simp only [hmem, ← ih]
        cases hv : f head with
        | none => simp [tabulate, hv]
        | some v => simp [tabulate_cons_of_some hv, hk]

variable {c : RecencyList K V}

/-- An entry that is there only moves. -/
theorem length_refresh_le (hthere : (c.lookup k).isSome) : (c.refresh k v).entries.length ≤ c.entries.length := by
  obtain ⟨e, hfound⟩ := Option.isSome_iff_exists.mp (by simpa only [lookup, Option.isSome_map] using hthere)
  have hfewer : (c.remove k).entries.length < c.entries.length :=
    List.length_filter_lt_length_iff_exists.mpr
      ⟨e, List.mem_of_find?_eq_some hfound, by simpa using List.find?_some hfound⟩
  rw [refresh, List.length_append, List.length_singleton]
  exact hfewer

/-- An entry that is not there adds one. -/
theorem length_refresh_le_succ : (c.refresh k v).entries.length ≤ c.entries.length + 1 := by
  rw [refresh, List.length_append, List.length_singleton]
  exact Nat.succ_le_succ (List.length_filter_le _ _)

theorem remove_of_absent (habsent : c.lookup k = none) : c.remove k = c := by
  have hself : c.entries.filter (fun e => decide (e.1 ≠ k)) = c.entries := by
    rw [List.filter_eq_self]
    simpa [lookup] using habsent
  rw [remove, hself]

theorem mem_refresh {e : K × V} (hmem : e ∈ (c.refresh k v).entries) : e ∈ c.entries ∨ e = (k, v) := by
  rcases List.mem_append.mp hmem with hold | hnew
  · exact .inl (List.mem_of_mem_filter hold)
  · exact .inr (List.mem_singleton.mp hnew)

theorem mem_of_lookup (hlookup : c.lookup k = some v) : (k, v) ∈ c.entries := by
  obtain ⟨e, hfound, rfl⟩ := Option.map_eq_some_iff.mp hlookup
  obtain rfl : e.1 = k := by simpa using List.find?_some hfound
  exact List.mem_of_find?_eq_some hfound

/-- What is added is an entry only where there was none under its key. -/
theorem mem_add {e : K × V} (hmem : e ∈ (c.add k v).entries) : e ∈ c.entries ∨ c.lookup k = none ∧ e = (k, v) := by
  rcases mem_refresh (List.mem_of_mem_drop hmem) with hold | hnew
  · exact .inl hold
  · cases hlookup : c.lookup k with
    | none => exact .inr ⟨rfl, by rw [hnew, hlookup, Option.getD_none]⟩
    | some w =>
        rw [hlookup, Option.getD_some] at hnew
        exact .inl (hnew ▸ mem_of_lookup hlookup)

theorem mem_fetch {e : K × V} (hmem : e ∈ (c.fetch k).2.entries) : e ∈ c.entries := by
  rw [fetch] at hmem
  cases hlookup : c.lookup k with
  | none =>
      rw [hlookup] at hmem
      exact hmem
  | some w =>
      rw [hlookup] at hmem
      rcases mem_refresh hmem with hold | rfl
      · exact hold
      · exact mem_of_lookup hlookup

/-- The entries of a map are looked up as in the map. -/
theorem lookup_tabulate (hkeys : ∀ k, k ∈ keys ↔ (f k).isSome) : lookup ⟨tabulate f keys, capacity⟩ k = f k := by
  simp only [lookup, find_tabulate, hkeys]
  cases f k <;> simp

end RecencyList
