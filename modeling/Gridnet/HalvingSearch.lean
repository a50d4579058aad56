import Mathlib.Data.List.Count
import Mathlib.Data.List.Sort
import Mathlib.Order.Defs.LinearOrder

/-! The lower bound of a list by halving, over any test. Where the test holds on a front of the list, the
search finds the end of that front; where it holds on the rest behind a front instead, the search runs into
one of the two ends, and the element in the middle decides which. -/

namespace HalvingSearch

variable {α : Type*}

/-- The search in a window, in at most so many turns: the middle element that passes the test leads to the
window behind it, one that does not to the window before it. -/
def searchIn (before : α → Bool) : (turns : ℕ) → (window : List α) → ℕ
  | 0, _ => 0
  | turns + 1, window =>
      let step := window.length / 2
      match window.drop step with
      | [] => 0
      | middle :: rest =>
          if before middle then step + 1 + searchIn before turns rest
          else searchIn before turns (window.take step)

/-- `std::lower_bound` for a test that compares an element with the value sought. -/
def lowerBound (before : α → Bool) (l : List α) : ℕ := searchIn before l.length l

variable {before : α → Bool} {turns : ℕ} {window : List α}

/-! ### One turn -/

theorem searchIn_nil : searchIn before turns [] = 0 := by
  cases turns <;> simp [searchIn]

/-- A window that is not empty has a middle. -/
theorem middle_split (hwindow : window ≠ []) :
    ∃ middle rest, window.drop (window.length / 2) = middle :: rest ∧
      window = window.take (window.length / 2) ++ middle :: rest := by
  have hpos : 0 < window.length := List.length_pos_of_ne_nil hwindow
  have hlt : window.length / 2 < window.length := Nat.div_lt_self hpos (by decide)
  have hdrop := List.drop_eq_getElem_cons hlt
  exact ⟨_, _, hdrop, by rw [← hdrop, List.take_append_drop]⟩

theorem searchIn_pass {middle : α} {rest : List α}
    (hdrop : window.drop (window.length / 2) = middle :: rest) (hpass : before middle = true) :
    searchIn before (turns + 1) window = window.length / 2 + 1 + searchIn before turns rest := by
  simp [searchIn, hdrop, hpass]

theorem searchIn_fail {middle : α} {rest : List α}
    (hdrop : window.drop (window.length / 2) = middle :: rest) (hfail : before middle = false) :
    searchIn before (turns + 1) window =
      searchIn before turns (window.take (window.length / 2)) := by
  simp [searchIn, hdrop, hfail]

/-- Both halves are shorter than the window. -/
theorem halves_lt {middle : α} {rest : List α}
    (hdrop : window.drop (window.length / 2) = middle :: rest) :
    rest.length < window.length ∧ (window.take (window.length / 2)).length < window.length := by
  have hlength := congrArg List.length hdrop
  rw [List.length_drop, List.length_cons] at hlength
  rw [List.length_take]
  omega

/-- The search stays in its window. -/
theorem searchIn_le : searchIn before turns window ≤ window.length := by
  induction turns generalizing window with
  | zero => exact Nat.zero_le _
  | succ turns ih =>
      rcases eq_or_ne window [] with rfl | hwindow
      · rw [searchIn_nil]
        exact Nat.zero_le _
      · obtain ⟨middle, rest, hdrop, -⟩ := middle_split hwindow
        have hlength := congrArg List.length hdrop
        rw [List.length_drop, List.length_cons] at hlength
        cases hmid : before middle with
        | true =>
            have hrest : searchIn before turns rest ≤ rest.length := ih
            rw [searchIn_pass hdrop hmid]
            omega
        | false =>
            have htake : searchIn before turns (window.take (window.length / 2)) ≤
                (window.take (window.length / 2)).length := ih
            rw [List.length_take] at htake
            rw [searchIn_fail hdrop hmid]
            omega

theorem lowerBound_le (before : α → Bool) (l : List α) : lowerBound before l ≤ l.length :=
  searchIn_le

/-! ### The test holds on a front -/

/-- The search finds the end of the front on which the test holds. -/
theorem searchIn_eq_countP (hturns : window.length ≤ turns)
    (hfront : window.Pairwise fun a b => before b = true → before a = true) :
    searchIn before turns window = window.countP before := by
  induction turns generalizing window with
  | zero =>
      rw [List.eq_nil_of_length_eq_zero (Nat.le_zero.mp hturns)]
      rfl
  | succ turns ih =>
      rcases eq_or_ne window [] with rfl | hwindow
      · exact searchIn_nil
      · obtain ⟨middle, rest, hdrop, hsplit⟩ := middle_split hwindow
        obtain ⟨hrest, htake⟩ := halves_lt hdrop
        have hparts := hfront
        rw [hsplit, List.pairwise_append, List.pairwise_cons] at hparts
        obtain ⟨hleft, ⟨hmiddle, hright⟩, hcross⟩ := hparts
        have hcount : window.countP before =
            (window.take (window.length / 2)).countP before + (middle :: rest).countP before := by
          rw [← List.countP_append, ← hsplit]
        rw [hcount]
        cases hmid : before middle with
        | true =>
            have hall : (window.take (window.length / 2)).countP before = window.length / 2 := by
              rw [List.countP_eq_length.mpr fun a ha => hcross a ha middle List.mem_cons_self hmid,
                List.length_take]
              omega
            rw [searchIn_pass hdrop hmid, ih (by omega) hright, hall, List.countP_cons_of_pos hmid]
            omega
        | false =>
            have hnone : (middle :: rest).countP before = 0 := by
              rw [List.countP_eq_zero]
              intro a ha hpass
              rcases List.mem_cons.mp ha with rfl | ha
              · rw [hmid] at hpass
                cases hpass
              · rw [hmiddle a ha hpass] at hmid
                cases hmid
            rw [searchIn_fail hdrop hmid, ih (by omega) hleft, hnone, Nat.add_zero]

theorem lowerBound_eq_countP {l : List α}
    (hfront : l.Pairwise fun a b => before b = true → before a = true) :
    lowerBound before l = l.countP before :=
  searchIn_eq_countP (Nat.le_refl _) hfront

/-- In a list in order, an element inserted at the lower bound keeps the order: the test holds of what must
stay before it. -/
theorem insertIdx_lowerBound {r : α → α → Prop} [DecidableRel r] [IsTrans α r] {l : List α}
    (hordered : l.Pairwise r) (a : α) :
    l.insertIdx (lowerBound (fun b => !decide (r a b)) l) a = l.orderedInsert r a := by
  have hfront : l.Pairwise fun b c => (!decide (r a c)) = true → (!decide (r a b)) = true := by
    apply hordered.imp
    intro b c hbc hac
    simp only [Bool.not_eq_true', decide_eq_false_iff_not] at hac ⊢
    intro hab
    exact hac (trans_of r hab hbc)
  rw [lowerBound_eq_countP hfront]
  induction l with
  | nil => rfl
  | cons b l ih =>
      rw [List.pairwise_cons] at hordered hfront
      by_cases hab : r a b
      · have hnone : (b :: l).countP (fun b => !decide (r a b)) = 0 := by
          rw [List.countP_eq_zero]
          intro c hc hpass
          simp only [Bool.not_eq_true', decide_eq_false_iff_not] at hpass
          rcases List.mem_cons.mp hc with rfl | hc
          · exact hpass hab
          · exact hpass (trans_of r hab (hordered.1 c hc))
        rw [hnone, List.insertIdx_zero, List.orderedInsert_cons_of_le r l hab]
      · rw [List.countP_cons_of_pos (by simpa using hab), List.insertIdx_succ_cons,
          ih hordered.2 hfront.2, List.orderedInsert_of_not_le r l hab]

/-! ### The test holds behind a front -/

/-- Where the test holds behind a front only, the search ends at the end of the list if the middle element
passes the test, and at the beginning if it does not. -/
theorem lowerBound_of_back {l : List α}
    (hback : l.Pairwise fun a b => before a = true → before b = true) :
    lowerBound before l = if (l[l.length / 2]?).any before then l.length else 0 := by
  rcases eq_or_ne l [] with rfl | hl
  · rfl
  · obtain ⟨middle, rest, hdrop, hsplit⟩ := middle_split hl
    obtain ⟨hrest, htake⟩ := halves_lt hdrop
    have hmiddle : l[l.length / 2]? = some middle := by
      rw [← List.head?_drop, hdrop]
      rfl
    have hlength := congrArg List.length hdrop
    rw [List.length_drop, List.length_cons] at hlength
    obtain ⟨turns, hturns⟩ : ∃ turns, l.length = turns + 1 :=
      ⟨l.length - 1, by have := List.length_pos_of_ne_nil hl; omega⟩
    have hparts := hback
    rw [hsplit, List.pairwise_append, List.pairwise_cons] at hparts
    obtain ⟨-, ⟨hright, -⟩, hcross⟩ := hparts
    unfold lowerBound
    rw [hmiddle, Option.any_some, hturns]
    cases hmid : before middle with
    | true =>
        have hall : ∀ b ∈ rest, before b = true := fun b hb => hright b hb hmid
        rw [searchIn_pass hdrop hmid, searchIn_eq_countP (by omega), List.countP_eq_length.mpr hall,
          if_pos rfl]
        · omega
        · exact List.pairwise_of_forall_mem_list fun a ha _ _ _ => hall a ha
    | false =>
        have hnone : ∀ a ∈ l.take (l.length / 2), before a ≠ true := by
          intro a ha hpass
          rw [hcross a ha middle List.mem_cons_self hpass] at hmid
          cases hmid
        rw [searchIn_fail hdrop hmid, searchIn_eq_countP (by omega), List.countP_eq_zero.mpr hnone,
          if_neg (by simp)]
        exact List.pairwise_of_forall_mem_list fun a _ b hb hpass => absurd hpass (hnone b hb)

end HalvingSearch
