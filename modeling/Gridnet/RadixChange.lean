import Mathlib.Data.List.TakeWhile
import Mathlib.Data.Nat.Digits.Lemmas

/-! Numerals in which leading zeros count, from one radix to another. The most significant digit comes first. -/

namespace Radix

def leadingZeros (digits : List ℕ) : ℕ := (digits.takeWhile (· = 0)).length

/-- The number that digits stand for. -/
def value (b : ℕ) (digits : List ℕ) : ℕ := Nat.ofDigits b digits.reverse

/-- The digits in radix `c` of the number in radix `b`, with the same zeros in front. -/
def change (b c : ℕ) (digits : List ℕ) : List ℕ :=
  List.replicate (leadingZeros digits) 0 ++ (Nat.digits c (value b digits)).reverse

variable {b c : ℕ} {digits : List ℕ}

theorem takeWhile_eq_replicate : digits.takeWhile (· = 0) = List.replicate (leadingZeros digits) 0 := by
  refine List.eq_replicate_of_mem fun d hd => ?_
  simpa using List.mem_takeWhile_imp hd

/-- Digits are their leading zeros and the significant ones. -/
theorem replicate_append_dropWhile :
    List.replicate (leadingZeros digits) 0 ++ digits.dropWhile (· = 0) = digits := by
  rw [← takeWhile_eq_replicate, List.takeWhile_append_dropWhile]

theorem value_eq_foldl (b : ℕ) (digits : List ℕ) : value b digits = digits.foldl (fun n d => d + b * n) 0 := by
  rw [value, Nat.ofDigits_eq_foldr, List.foldr_reverse]
  rfl

theorem value_replicate_append (zeros : ℕ) (digits : List ℕ) :
    value b (List.replicate zeros 0 ++ digits) = value b digits := by
  rw [value, List.reverse_append, List.reverse_replicate, Nat.ofDigits_append_replicate_zero, value]

/-- The number does not change with the zeros in front. -/
theorem value_dropWhile (b : ℕ) (digits : List ℕ) : value b (digits.dropWhile (· = 0)) = value b digits := by
  rw [← value_replicate_append (leadingZeros digits), replicate_append_dropWhile]

theorem value_lt (hb : 1 < b) (hdigits : ∀ d ∈ digits, d < b) : value b digits < b ^ digits.length := by
  have hlt := Nat.ofDigits_lt_base_pow_length (l := digits.reverse) hb fun d hd => hdigits d (List.mem_reverse.mp hd)
  rwa [List.length_reverse] at hlt

theorem value_reverse_digits (c n : ℕ) : value c (Nat.digits c n).reverse = n := by
  rw [value, List.reverse_reverse, Nat.ofDigits_digits]

/-- The digits of a number start with none that is zero. -/
theorem leadingZeros_replicate_append (zeros c n : ℕ) :
    leadingZeros (List.replicate zeros 0 ++ (Nat.digits c n).reverse) = zeros := by
  rw [leadingZeros, List.takeWhile_append_of_pos fun d hd => decide_eq_true (List.eq_of_mem_replicate hd),
    List.length_append, List.length_replicate, Nat.add_eq_left, List.length_eq_zero_iff]
  by_cases hn : n = 0
  · rw [hn, Nat.digits_zero, List.reverse_nil, List.takeWhile_nil]
  · rw [List.takeWhile_eq_nil_iff]
    intro hpos
    have hlast := Nat.getLast_digit_ne_zero c hn
    rw [List.getLast_eq_getElem] at hlast
    simpa using hlast

/-- The significant digits are those of the number. -/
theorem digits_value (hb : 1 < b) (hdigits : ∀ d ∈ digits, d < b) :
    (Nat.digits b (value b digits)).reverse = digits.dropWhile (· = 0) := by
  rw [← value_dropWhile, value, Nat.digits_ofDigits b hb, List.reverse_reverse]
  · intro d hd
    exact hdigits d ((List.dropWhile_suffix _).mem (List.mem_reverse.mp hd))
  · intro hne
    rw [List.getLast_reverse]
    simpa using List.head_dropWhile_not (fun d => decide (d = 0)) (List.reverse_ne_nil_iff.mp hne)

theorem change_lt (hc : 1 < c) : ∀ d ∈ change b c digits, d < c := by
  intro d hd
  rcases List.mem_append.mp hd with hzero | hdigit
  · rw [List.eq_of_mem_replicate hzero]
    omega
  · exact Nat.digits_lt_base hc (List.mem_reverse.mp hdigit)

/-- Changed to another radix and back, digits are the same. -/
theorem change_change (hb : 1 < b) (hdigits : ∀ d ∈ digits, d < b) : change c b (change b c digits) = digits := by
  rw [change, change, leadingZeros_replicate_append, value_replicate_append, value_reverse_digits,
    digits_value hb hdigits, replicate_append_dropWhile]

theorem change_ne_nil (hb : 1 < b) (hdigits : ∀ d ∈ digits, d < b) (hne : digits ≠ []) : change b c digits ≠ [] := by
  intro hnil
  have hback := change_change (c := c) hb hdigits
  rw [hnil] at hback
  exact hne (hback.symm.trans (by simp [change, leadingZeros, value]))

end Radix
