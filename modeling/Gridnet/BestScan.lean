import Mathlib.Data.List.MinMax

/-! Scanning lists for the best entry, one list after another. A scan keeps a record of the best
entry so far and replaces it by the record of an entry that is strictly better; the record it is
given may come from an earlier scan. What it ends with is said in terms of `List.argmax`. -/

namespace BestScan

variable {α ρ κ : Type*} [LinearOrder κ] (key : ρ → κ) (record : α → ρ)

/-- One entry: a strictly better one takes the place of the best so far. -/
def keepBest (best : ρ) (a : α) : ρ := if key best < key (record a) then record a else best

/-- A scan: the first best entry of the list is set against the best found before it. -/
theorem foldl_keepBest (best : ρ) (l : List α) :
    l.foldl (keepBest key record) best =
      match l.argmax (key ∘ record) with
      | none => best
      | some a => keepBest key record best a := by
  induction l using List.reverseRecOn with
  | nil => rfl
  | append_singleton l a ih =>
      rw [List.foldl_concat, ih, List.argmax_concat]
      cases l.argmax (key ∘ record) with
      | none => rfl
      | some m =>
          by_cases hma : key (record m) < key (record a)
          · have hskip : keepBest key record (keepBest key record best m) a
                = keepBest key record best a := by
              unfold keepBest
              by_cases hbm : key best < key (record m)
              · rw [if_pos hbm, if_pos hma, if_pos (hbm.trans hma)]
              · rw [if_neg hbm]
            simpa only [Function.comp_apply, hma, if_true] using hskip
          · have hstay : keepBest key record (keepBest key record best m) a
                = keepBest key record best m := by
              unfold keepBest
              by_cases hbm : key best < key (record m)
              · rw [if_pos hbm, if_neg hma]
              · rw [if_neg hbm, if_neg]
                exact fun hba => hma (lt_of_le_of_lt (le_of_not_gt hbm) hba)
            simpa only [Function.comp_apply, hma, if_false] using hstay

/-- The best entry of a list, where it beats the record a scan starts from. -/
def bestAbove (floor : ρ) (l : List α) : Option α :=
  (l.argmax (key ∘ record)).filter fun a => key floor < key (record a)

theorem bestAbove_eq_some_iff {floor : ρ} {l : List α} {a : α} :
    bestAbove key record floor l = some a ↔
      l.argmax (key ∘ record) = some a ∧ key floor < key (record a) := by
  simp [bestAbove, Option.filter_eq_some_iff]

/-- A scan in terms of the entry that beats its start. -/
theorem foldl_keepBest_eq (floor : ρ) (l : List α) :
    l.foldl (keepBest key record) floor = ((bestAbove key record floor l).map record).getD floor := by
  rw [foldl_keepBest, bestAbove]
  cases l.argmax (key ∘ record) with
  | none => rfl
  | some a =>
      by_cases habove : key floor < key (record a)
      · simp [keepBest, Option.filter, habove]
      · simp [keepBest, Option.filter, habove]

/-- A scan in two parts ends with the best entry of the second part exactly when that entry is
strictly better than the first part's best, or has the very same `name`. -/
theorem foldl_append_name_iff {ν : Type*} (name : ρ → ν) {floor : ρ} (before own : List α) {w : α}
    (hwin : bestAbove key record floor own = some w) :
    name ((before ++ own).foldl (keepBest key record) floor) = name (record w) ↔
      ∀ r, bestAbove key record floor before = some r →
        key (record r) < key (record w) ∨ name (record r) = name (record w) := by
  obtain ⟨hargmax, habove⟩ := (bestAbove_eq_some_iff key record).mp hwin
  rw [List.foldl_append, foldl_keepBest, hargmax, foldl_keepBest_eq]
  cases hbefore : bestAbove key record floor before with
  | none => simp [keepBest, habove]
  | some r =>
      by_cases hrw : key (record r) < key (record w)
      · simp [keepBest, hrw]
      · simp [keepBest, hrw]

end BestScan
