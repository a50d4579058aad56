import Mathlib.Data.List.Basic

/-! Loops that go over a list by an index and erase elements of it on the way. What such a loop leaves is said without
the index: where the index is stepped back, the element behind an erased one is visited next; where it is not, that
element is passed over. -/

namespace EraseLoop

variable {α σ : Type*} (visit : σ → α → Option α × σ) (stepsBack : ℕ → Bool)

/-- The loop from an index on. An element that is visited is kept, possibly changed, or erased; then the index is
stepped back, or not, and in either case it goes on by one. -/
def loop (xs : List α) (i : ℕ) (s : σ) : List α × σ :=
  if h : i < xs.length then
    let visited := visit s xs[i]
    match visited.1 with
    | some a => loop (xs.set i a) (i + 1) visited.2
    | none => loop (xs.eraseIdx i) ((if stepsBack i then i - 1 else i) + 1) visited.2
  else (xs, s)
termination_by xs.length - i
decreasing_by
  · simp only [List.length_set]
    omega
  · simp only [List.length_eraseIdx, h, if_true]
    split <;> omega

/-- Every element is visited. -/
def visitAll : σ → List α → List α × σ
  | s, [] => ([], s)
  | s, a :: l =>
      ((visit s a).1.toList ++ (visitAll (visit s a).2 l).1, (visitAll (visit s a).2 l).2)

/-- The element behind one that is erased is passed over. -/
def visitSkipping : σ → List α → List α × σ
  | s, [] => ([], s)
  | s, [a] => ((visit s a).1.toList, (visit s a).2)
  | s, a :: b :: l =>
      match (visit s a).1 with
      | some a' => (a' :: (visitSkipping (visit s a).2 (b :: l)).1, (visitSkipping (visit s a).2 (b :: l)).2)
      | none => (b :: (visitSkipping (visit s a).2 l).1, (visitSkipping (visit s a).2 l).2)

variable {visit stepsBack}

theorem loop_of_length_le {xs : List α} {i : ℕ} (h : xs.length ≤ i) (s : σ) :
    loop visit stepsBack xs i s = (xs, s) := by
  rw [loop, dif_neg (Nat.not_lt.mpr h)]

/-- A turn at the first element that is left, which is kept. -/
theorem loop_of_kept {a a' : α} {s : σ} (hkept : (visit s a).1 = some a') (before after : List α) :
    loop visit stepsBack (before ++ a :: after) before.length s =
      loop visit stepsBack (before ++ [a'] ++ after) (before ++ [a']).length (visit s a).2 := by
  rw [loop, dif_pos (by simp)]
  simp [hkept]

/-- A turn at the first element that is left, which is erased. -/
theorem loop_of_erased {a : α} {s : σ} (herased : (visit s a).1 = none) (before after : List α) :
    loop visit stepsBack (before ++ a :: after) before.length s =
      loop visit stepsBack (before ++ after)
        ((if stepsBack before.length then before.length - 1 else before.length) + 1) (visit s a).2 := by
  rw [loop, dif_pos (by simp)]
  simp [herased, List.eraseIdx_append_of_length_le]

/-- Where the index is stepped back behind the first place, all that is left is visited there. -/
theorem loop_visitAll (hback : ∀ i, 0 < i → stepsBack i = true) {before : List α} (hbefore : before ≠ [])
    (after : List α) (s : σ) :
    loop visit stepsBack (before ++ after) before.length s =
      (before ++ (visitAll visit s after).1, (visitAll visit s after).2) := by
  induction after generalizing before s with
  | nil => simp [loop_of_length_le, visitAll]
  | cons a after ih =>
      cases hvisit : (visit s a).1 with
      | some a' =>
          rw [loop_of_kept hvisit, ih (by simp), visitAll, hvisit]
          simp
      | none =>
          have hpos : 0 < before.length := List.length_pos_iff.mpr hbefore
          rw [loop_of_erased hvisit, if_pos (hback _ hpos), Nat.sub_add_cancel hpos, ih hbefore, visitAll, hvisit]
          rfl

theorem loop_first_kept (hback : ∀ i, 0 < i → stepsBack i = true) {a a' : α} {s : σ} (hkept : (visit s a).1 = some a')
    (l : List α) : loop visit stepsBack (a :: l) 0 s =
      (a' :: (visitAll visit (visit s a).2 l).1, (visitAll visit (visit s a).2 l).2) :=
  (loop_of_kept hkept [] l).trans (loop_visitAll hback (List.cons_ne_nil a' []) l _)

/-- Where it is not stepped back at the first place, the second element is passed over when the first is erased. -/
theorem loop_first_erased (hback : ∀ i, 0 < i → stepsBack i = true) (hfirst : stepsBack 0 = false) {a : α} {s : σ}
    (herased : (visit s a).1 = none) (b : α) (l : List α) : loop visit stepsBack (a :: b :: l) 0 s =
      (b :: (visitAll visit (visit s a).2 l).1, (visitAll visit (visit s a).2 l).2) := by
  have hturn : loop visit stepsBack (a :: b :: l) 0 s =
      loop visit stepsBack (b :: l) ((if stepsBack 0 then 0 - 1 else 0) + 1) (visit s a).2 :=
    loop_of_erased herased [] (b :: l)
  rw [hfirst] at hturn
  exact hturn.trans (loop_visitAll hback (List.cons_ne_nil b []) l _)

theorem loop_single_erased {a : α} {s : σ} (herased : (visit s a).1 = none) :
    loop visit stepsBack [a] 0 s = ([], (visit s a).2) :=
  (loop_of_erased herased [] []).trans (loop_of_length_le (by simp) _)

/-- Where it is never stepped back, the element behind each erased one is passed over. -/
theorem loop_visitSkipping (hback : ∀ i, stepsBack i = false) (before after : List α) (s : σ) :
    loop visit stepsBack (before ++ after) before.length s =
      (before ++ (visitSkipping visit s after).1, (visitSkipping visit s after).2) := by
  induction s, after using visitSkipping.induct visit generalizing before with
  | case1 s => simp [loop_of_length_le, visitSkipping]
  | case2 s a =>
      cases hvisit : (visit s a).1 with
      | some a' => simp [loop_of_kept hvisit, loop_of_length_le, visitSkipping, hvisit]
      | none => simp [loop_of_erased hvisit, hback, loop_of_length_le, visitSkipping, hvisit]
  | case3 s a b l a' hkept ih =>
      rw [loop_of_kept hkept, ih, visitSkipping, hkept]
      simp
  | case4 s a b l herased ih =>
      have hpassed := ih (before ++ [b])
      rw [loop_of_erased herased, hback, visitSkipping, herased]
      simpa using hpassed

/-! ### Erasing what passes a test -/

/-- What is left where the element behind each erased one is passed over. -/
def skipFilter (p : α → Bool) : List α → List α
  | [] => []
  | [a] => if p a then [] else [a]
  | a :: b :: l => if p a then b :: skipFilter p l else a :: skipFilter p (b :: l)

/-- All of them are erased exactly where no two of them are neighbours. -/
theorem skipFilter_eq_filter_iff (p : α → Bool) (l : List α) :
    skipFilter p l = l.filter (fun a => !p a) ↔ l.IsChain fun a b => ¬(p a = true ∧ p b = true) := by
  induction l using skipFilter.induct p with
  | case1 => simp [skipFilter]
  | case2 a ha => simp [skipFilter, ha]
  | case3 a ha => simp [skipFilter, ha]
  | case4 a b l ha ih =>
      rw [skipFilter, if_pos ha, List.isChain_cons_cons, List.filter_cons_of_neg (by simp [ha])]
      cases hb : p b with
      | true =>
          simp only [ha, and_self, not_true_eq_false, false_and, iff_false]
          intro heq
          have hmem : b ∈ (b :: l).filter fun a => !p a := heq ▸ List.mem_cons_self
          simp [hb] at hmem
      | false =>
          have hskip : (b :: l).IsChain (fun a b => ¬(p a = true ∧ p b = true)) ↔
              l.IsChain fun a b => ¬(p a = true ∧ p b = true) := by
            cases l with
            | nil => simp
            | cons c l => simp [hb]
          rw [List.filter_cons_of_pos (by simp [hb]), List.cons_inj_right, ih, hskip]
          simp
  | case5 a b l ha ih =>
      rw [skipFilter, if_neg ha, List.isChain_cons_cons, List.filter_cons_of_pos (by simpa using ha),
        List.cons_inj_right, ih]
      simp [ha]

end EraseLoop
