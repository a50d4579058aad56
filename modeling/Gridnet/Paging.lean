import Mathlib.Data.List.Basic

/-! Lists in pages of a size, counted from 0. The pages that are not beyond the list make it up; each but the last is
full, and those beyond it are empty. -/

namespace Paging

variable {α : Type*} {l : List α} {n i : Nat}

def page (l : List α) (n i : Nat) : List α := (l.drop (i * n)).take n

/-- How many pages there are. -/
def pages (l : List α) (n : Nat) : Nat := (l.length + n - 1) / n

theorem pages_le_iff (hn : 0 < n) : pages l n ≤ i ↔ l.length ≤ i * n := by
  rw [pages, ← Nat.lt_succ_iff, Nat.div_lt_iff_lt_mul hn, Nat.succ_mul]
  omega

theorem lt_pages_iff (hn : 0 < n) : i < pages l n ↔ i * n < l.length := by
  rw [← Nat.not_le, pages_le_iff hn, Nat.not_le]

/-- Every page before the last is full. -/
theorem length_page (hn : 0 < n) (hi : i + 1 < pages l n) : (page l n i).length = n := by
  have hlong := (lt_pages_iff hn).mp hi
  rw [page, List.length_take, List.length_drop]
  rw [Nat.succ_mul] at hlong
  omega

theorem flatMap_page (k : Nat) : (List.range k).flatMap (page l n) = l.take (k * n) := by
  induction k with
  | zero => simp
  | succ k ih =>
      rw [List.range_succ, List.flatMap_append, ih, List.flatMap_singleton, page, Nat.succ_mul, List.take_add]

/-- The pages make up the list. -/
theorem flatMap_pages (hn : 0 < n) : (List.range (pages l n)).flatMap (page l n) = l := by
  rw [flatMap_page, List.take_of_length_le ((pages_le_iff hn).mp (Nat.le_refl _))]

end Paging
