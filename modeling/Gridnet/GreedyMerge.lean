import Mathlib.Data.List.MinMax
import Mathlib.Algebra.GroupWithZero.Nat
import Mathlib.Algebra.Order.BigOperators.Group.List
import Mathlib.Algebra.Order.Ring.Nat

/-! Elements grouped under their keys, as a map ordered by its keys holds them, and a merge of the groups that
takes, again and again, the best of the elements that are next in their groups. -/

namespace GreedyMerge

/-! ### Groups -/

section Groups

variable {α κ : Type*} [LT κ] [DecidableLT κ] [DecidableEq κ]

/-- An element put at the end of the group of its key; a key that is not there yet gets a group of its own. -/
def pushBack (k : κ) (x : α) : List (κ × List α) → List (κ × List α)
  | [] => [(k, [x])]
  | group :: groups =>
      if k < group.1 then (k, [x]) :: group :: groups
      else if k = group.1 then (group.1, group.2 ++ [x]) :: groups
      else group :: pushBack k x groups

/-- The elements grouped by their keys. -/
def groupBy (key : α → κ) (l : List α) : List (κ × List α) :=
  l.foldl (fun groups x => pushBack (key x) x groups) []

/-- A key put into its place, if it is not there. -/
def insertKey (k : κ) : List κ → List κ
  | [] => [k]
  | k' :: ks => if k < k' then k :: k' :: ks else if k = k' then k' :: ks else k' :: insertKey k ks

/-- The keys of a list in their order. -/
def keysOf (key : α → κ) (l : List α) : List κ := l.foldl (fun ks x => insertKey (key x) ks) []

theorem mem_insertKey {k k' : κ} {ks : List κ} : k' ∈ insertKey k ks ↔ k' = k ∨ k' ∈ ks := by
  induction ks with
  | nil => simp [insertKey]
  | cons k₀ ks ih =>
      rw [insertKey]
      split_ifs with hlt heq
      · simp
      · simp [heq]
      · simp [ih, or_left_comm]

@[simp] theorem keysOf_concat (key : α → κ) (l : List α) (x : α) :
    keysOf key (l ++ [x]) = insertKey (key x) (keysOf key l) := by
  simp [keysOf]

@[simp] theorem mem_keysOf {key : α → κ} {l : List α} {k : κ} : k ∈ keysOf key l ↔ ∃ x ∈ l, key x = k := by
  induction l using List.reverseRecOn with
  | nil => simp [keysOf]
  | append_singleton l x ih =>
      rw [keysOf_concat, mem_insertKey, ih]
      simp [or_and_right, exists_or, or_comm, eq_comm]

variable [LE κ] [Std.IsLinearOrder κ] [Std.LawfulOrderLT κ]

theorem insertKey_pairwise {k : κ} {ks : List κ} (hsorted : ks.Pairwise (· < ·)) :
    (insertKey k ks).Pairwise (· < ·) := by
  induction ks with
  | nil => simp [insertKey]
  | cons k₀ ks ih =>
      obtain ⟨hhead, htail⟩ := List.pairwise_cons.mp hsorted
      rw [insertKey]
      split_ifs with hlt heq
      · refine List.pairwise_cons.mpr ⟨fun k' hk' => ?_, hsorted⟩
        rcases List.mem_cons.mp hk' with rfl | hmem
        · exact hlt
        · exact Std.lt_trans hlt (hhead k' hmem)
      · exact hsorted
      · refine List.pairwise_cons.mpr ⟨fun k' hk' => ?_, ih htail⟩
        rcases mem_insertKey.mp hk' with rfl | hmem
        · exact Std.lt_of_le_of_ne (Std.not_lt.mp hlt) (Ne.symm heq)
        · exact hhead k' hmem

theorem keysOf_pairwise (key : α → κ) (l : List α) : (keysOf key l).Pairwise (· < ·) := by
  induction l using List.reverseRecOn with
  | nil => exact List.Pairwise.nil
  | append_singleton l x ih =>
      rw [keysOf_concat]
      exact insertKey_pairwise ih

theorem keysOf_nodup (key : α → κ) (l : List α) : (keysOf key l).Nodup :=
  (keysOf_pairwise key l).imp fun hlt => Std.ne_of_lt hlt

theorem pushBack_map {k : κ} {x : α} {ks : List κ} (hsorted : ks.Pairwise (· < ·)) {queue : κ → List α}
    (hnew : k ∉ ks → queue k = []) :
    pushBack k x (ks.map fun k' => (k', queue k')) =
      (insertKey k ks).map fun k' => (k', if k' = k then queue k' ++ [x] else queue k') := by
  induction ks with
  | nil => simp [pushBack, insertKey, hnew]
  | cons k₀ ks ih =>
      obtain ⟨hhead, htail⟩ := List.pairwise_cons.mp hsorted
      rw [List.map_cons, pushBack, insertKey]
      dsimp only
      split_ifs with hlt heq
      · have hlater : ∀ k' ∈ ks, k' ≠ k := fun k' hk' hsame =>
          Std.lt_irrefl (hsame ▸ Std.lt_trans hlt (hhead k' hk'))
        have hfirst : k₀ ≠ k := fun hsame => Std.lt_irrefl (hsame ▸ hlt)
        have hempty : queue k = [] := hnew fun hmem => by
          rcases List.mem_cons.mp hmem with rfl | hmem
          · exact hfirst rfl
          · exact hlater k hmem rfl
        simpa [hempty, hfirst] using fun k' hk' hsame => absurd hsame (hlater k' hk')
      · have hlater : ∀ k' ∈ ks, k' ≠ k := fun k' hk' hsame =>
          Std.lt_irrefl ((hsame.trans heq) ▸ hhead k' hk')
        simpa [heq] using fun k' hk' hsame => absurd hsame (heq ▸ hlater k' hk')
      · rw [ih htail fun hmem => hnew (by simp [heq, hmem]), List.map_cons, if_neg (Ne.symm heq)]

/-- The groups of a list: under each of its keys the elements of that key, in their order. -/
theorem groupBy_eq (key : α → κ) (l : List α) :
    groupBy key l = (keysOf key l).map fun k => (k, l.filter fun x => key x = k) := by
  induction l using List.reverseRecOn with
  | nil => rfl
  | append_singleton l x ih =>
      have hnew : key x ∉ keysOf key l → (l.filter fun y => key y = key x) = [] := by
        simp +contextual [List.filter_eq_nil_iff]
      rw [groupBy, List.foldl_concat, ← groupBy, ih, pushBack_map (keysOf_pairwise key l) hnew, keysOf_concat]
      refine List.map_congr_left fun k _ => ?_
      by_cases hk : k = key x
      · simp [hk]
      · simp [hk, Ne.symm hk]

end Groups

theorem sum_length_filter_le {α κ : Type*} [DecidableEq κ] (key : α → κ) {ks : List κ} (hnodup : ks.Nodup)
    (l : List α) : (ks.map fun k => (l.filter fun x => key x = k).length).sum ≤ l.length := by
  induction ks generalizing l with
  | nil => simp
  | cons k ks ih =>
      obtain ⟨hk, hnodup⟩ := List.nodup_cons.mp hnodup
      have hrest : ∀ k' ∈ ks, (l.filter fun x => key x = k') =
          (l.filter fun x => ¬key x = k).filter fun x => key x = k' := by
        intro k' hk'
        rw [List.filter_filter]
        refine List.filter_congr fun x _ => ?_
        have : key x = k' → ¬key x = k := fun h h' => hk (h'.symm.trans h ▸ hk')
        grind
      have hsum := ih hnodup (l.filter fun x => ¬key x = k)
      rw [← List.map_congr_left fun k' hk' => congrArg List.length (hrest k' hk')] at hsum
      have hsplit := (List.length_eq_length_filter_add (l := l) (fun x => decide (key x = k))).symm
      simp only [decide_not] at hsum
      simp only [List.map_cons, List.sum_cons]
      omega

/-! ### The merge -/

section Merge

variable {α κ ρ : Type*} [LinearOrder ρ] (rank : α → ρ)

/-- The best of the elements that are next in their groups, with its key: the first one among equals. -/
def pickBest (groups : List (κ × List α)) (index : κ → ℕ) : Option (κ × α) :=
  groups.foldl (fun best group =>
    match group.2[index group.1]? with
    | none => best
    | some x =>
        match best with
        | none => some (group.1, x)
        | some b => if rank b.2 < rank x then some (group.1, x) else some b) none

/-- The elements that are next in their groups. -/
def nextOf (groups : List (κ × List α)) (index : κ → ℕ) : List (κ × α) :=
  groups.filterMap fun group => group.2[index group.1]?.map (Prod.mk group.1)

theorem pickBest_eq_argmax (groups : List (κ × List α)) (index : κ → ℕ) :
    pickBest rank groups index = (nextOf groups index).argmax fun next => rank next.2 := by
  rw [pickBest, nextOf, List.argmax, List.foldl_filterMap]
  congr 1
  funext best group
  cases group.2[index group.1]? with
  | none => rfl
  | some x => cases best with
    | none => rfl
    | some b => rfl

variable {rank} {key : α → κ} {ks : List κ} {queue : κ → List α}

theorem mem_nextOf_map {index : κ → ℕ} {next : κ × α} :
    next ∈ nextOf (ks.map fun k => (k, queue k)) index ↔ next.1 ∈ ks ∧ (queue next.1)[index next.1]? = some next.2 := by
  obtain ⟨k, x⟩ := next
  simp [nextOf, and_comm, and_left_comm]

/-- What a step takes is the first that is left of its key, and no other key has a better first. -/
theorem pickBest_spec {index : κ → ℕ} {best : κ × α}
    (hbest : pickBest rank (ks.map fun k => (k, queue k)) index = some best) :
    best.1 ∈ ks ∧ (queue best.1)[index best.1]? = some best.2 ∧
      ∀ k ∈ ks, ∀ x ∈ (queue k)[index k]?, rank x ≤ rank best.2 := by
  rw [pickBest_eq_argmax] at hbest
  obtain ⟨hkey, hnext⟩ := mem_nextOf_map.mp (List.argmax_mem hbest)
  refine ⟨hkey, hnext, fun k hk x hx => ?_⟩
  have hmem : ((k, x) : κ × α) ∈ nextOf (ks.map fun k => (k, queue k)) index := mem_nextOf_map.mpr ⟨hk, hx⟩
  have hle := List.le_of_mem_argmax hmem hbest
  exact hle

theorem drop_eq_nil_of_pickBest {index : κ → ℕ}
    (hbest : pickBest rank (ks.map fun k => (k, queue k)) index = none) {k : κ} (hk : k ∈ ks) :
    (queue k).drop (index k) = [] := by
  rw [pickBest_eq_argmax, List.argmax_eq_none] at hbest
  by_contra hne
  obtain ⟨x, rest, hdrop⟩ := List.exists_cons_of_ne_nil hne
  have hnext : (queue k)[index k]? = some x := by
    rw [← List.head?_drop, hdrop, List.head?_cons]
  have hmem : ((k, x) : κ × α) ∈ nextOf (ks.map fun k => (k, queue k)) index := mem_nextOf_map.mpr ⟨hk, hnext⟩
  rw [hbest] at hmem
  exact absurd hmem List.not_mem_nil

variable [DecidableEq κ]

variable (rank) in
/-- The merge, for at most so many elements: it stops where no group has a next one. -/
def merge (groups : List (κ × List α)) : ℕ → (κ → ℕ) → List α
  | 0, _ => []
  | n + 1, index =>
      match pickBest rank groups index with
      | none => []
      | some best => best.2 :: merge groups n (Function.update index best.1 (index best.1 + 1))

variable (rank) in
/-- At each place the element is at least as good as the first one left of each key. -/
def Greedy (key : α → κ) : List α → Prop
  | [] => True
  | x :: rest =>
      (∀ k, ∀ next ∈ ((x :: rest).filter fun y => key y = k).head?, rank next ≤ rank x) ∧ Greedy key rest

/-- One step takes the first element off one group and leaves the others as they are. -/
theorem drop_update {index : κ → ℕ} {best : κ × α} (hnext : (queue best.1)[index best.1]? = some best.2) (k : κ) :
    (queue k).drop (index k) =
      if k = best.1 then best.2 :: (queue k).drop (Function.update index best.1 (index best.1 + 1) k)
      else (queue k).drop (Function.update index best.1 (index best.1 + 1) k) := by
  by_cases hk : k = best.1
  · subst hk
    obtain ⟨hlt, hget⟩ := List.getElem?_eq_some_iff.mp hnext
    rw [if_pos rfl, Function.update_self, List.drop_eq_getElem_cons hlt, hget]
  · rw [if_neg hk, Function.update_of_ne hk]

theorem sum_update_lt {index : κ → ℕ} {best : κ × α} (hkey : best.1 ∈ ks)
    (hnext : (queue best.1)[index best.1]? = some best.2) :
    (ks.map fun k => ((queue k).drop (Function.update index best.1 (index best.1 + 1) k)).length).sum <
      (ks.map fun k => ((queue k).drop (index k)).length).sum := by
  refine List.sum_lt_sum _ _ (fun k _ => ?_) ⟨best.1, hkey, ?_⟩
  · rw [drop_update hnext k]
    split_ifs
    · exact Nat.le_succ _
    · exact le_rfl
  · rw [drop_update hnext best.1, if_pos rfl]
    exact Nat.lt_succ_self _

variable (rank) in
/-- The merge has, of each key, what was left of its group in its order. -/
theorem merge_filter (hown : ∀ k ∈ ks, ∀ x ∈ queue k, key x = k) {n : ℕ} {index : κ → ℕ}
    (hn : (ks.map fun k => ((queue k).drop (index k)).length).sum ≤ n) {k : κ} (hk : k ∈ ks) :
    (merge rank (ks.map fun k => (k, queue k)) n index).filter (fun x => key x = k) = (queue k).drop (index k) := by
  induction n generalizing index with
  | zero =>
      have hzero := List.single_le_sum (l := ks.map fun k => ((queue k).drop (index k)).length) (by simp) _
        (List.mem_map_of_mem hk)
      have hempty : (queue k).drop (index k) = [] := List.eq_nil_of_length_eq_zero (by omega)
      rw [merge, hempty, List.filter_nil]
  | succ n ih =>
      rw [merge]
      cases hbest : pickBest rank (ks.map fun k => (k, queue k)) index with
      | none => rw [drop_eq_nil_of_pickBest hbest hk, List.filter_nil]
      | some best =>
          obtain ⟨hkey, hnext, -⟩ := pickBest_spec hbest
          have hbestKey : key best.2 = best.1 := hown _ hkey _ (List.mem_of_getElem? hnext)
          have hlt := sum_update_lt hkey hnext
          rw [List.filter_cons, ih (by omega), drop_update hnext k, hbestKey]
          by_cases hsame : k = best.1
          · simp [hsame]
          · simp [hsame, Ne.symm hsame]

theorem merge_key_mem (hown : ∀ k ∈ ks, ∀ x ∈ queue k, key x = k) {n : ℕ} {index : κ → ℕ} {x : α}
    (hx : x ∈ merge rank (ks.map fun k => (k, queue k)) n index) : key x ∈ ks := by
  induction n generalizing index with
  | zero => exact absurd hx List.not_mem_nil
  | succ n ih =>
      rw [merge] at hx
      cases hbest : pickBest rank (ks.map fun k => (k, queue k)) index with
      | none =>
          rw [hbest] at hx
          exact absurd hx List.not_mem_nil
      | some best =>
          obtain ⟨hkey, hnext, -⟩ := pickBest_spec hbest
          rw [hbest] at hx
          rcases List.mem_cons.mp hx with rfl | hx
          · rwa [hown _ hkey _ (List.mem_of_getElem? hnext)]
          · exact ih hx

/-- The merge is greedy. -/
theorem merge_greedy (hown : ∀ k ∈ ks, ∀ x ∈ queue k, key x = k) {n : ℕ} {index : κ → ℕ}
    (hn : (ks.map fun k => ((queue k).drop (index k)).length).sum ≤ n) :
    Greedy rank key (merge rank (ks.map fun k => (k, queue k)) n index) := by
  induction n generalizing index with
  | zero => trivial
  | succ n ih =>
      have hfilter := fun k (hk : k ∈ ks) => merge_filter rank hown hn hk
      have hkeys : ∀ x ∈ merge rank (ks.map fun k => (k, queue k)) (n + 1) index, key x ∈ ks :=
        fun x hx => merge_key_mem hown hx
      rw [merge] at hfilter hkeys ⊢
      cases hbest : pickBest rank (ks.map fun k => (k, queue k)) index with
      | none => trivial
      | some best =>
          obtain ⟨hkey, hnext, hmax⟩ := pickBest_spec hbest
          rw [hbest] at hfilter hkeys
          have hlt := sum_update_lt hkey hnext
          refine ⟨fun k next hhead => ?_, ih (by omega)⟩
          by_cases hk : k ∈ ks
          · rw [hfilter k hk, List.head?_drop] at hhead
            exact hmax k hk next hhead
          · obtain ⟨hmem, hsame⟩ := List.mem_filter.mp (List.mem_of_mem_head? hhead)
            exact absurd (of_decide_eq_true hsame ▸ hkeys next hmem) hk

theorem Greedy.of_append {before l : List α} (hgreedy : Greedy rank key (before ++ l)) : Greedy rank key l := by
  induction before with
  | nil => exact hgreedy
  | cons x before ih => exact ih hgreedy.2

end Merge

end GreedyMerge
