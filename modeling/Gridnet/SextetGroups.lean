import Mathlib.Data.List.Basic
import Mathlib.Data.Nat.Basic

/-! Bytes in groups of three as sextets in groups of four. A last group that is not full has one sextet more than
bytes, with zeros in the bits that are left. -/

namespace Sextets

def ofBytes : List ℕ → List ℕ
  | [] => []
  | [a] => [a / 4, a % 4 * 16]
  | [a, b] => [a / 4, a % 4 * 16 + b / 16, b % 16 * 4]
  | a :: b :: c :: rest => a / 4 :: (a % 4 * 16 + b / 16) :: (b % 16 * 4 + c / 64) :: c % 64 :: ofBytes rest

/-- The bits that do not fill a byte are dropped. -/
def toBytes : List ℕ → List ℕ
  | [] | [_] => []
  | [x, y] => [x * 4 + y / 16]
  | [x, y, z] => [x * 4 + y / 16, y % 16 * 16 + z / 4]
  | x :: y :: z :: w :: rest =>
      (x * 4 + y / 16) :: (y % 16 * 16 + z / 4) :: (z % 4 * 64 + w) :: toBytes rest

/-- No sextet stands alone in the last group, and the bits that do not fill a byte are zero. -/
def Whole : List ℕ → Prop
  | [] => True
  | [_] => False
  | [_, y] => y % 16 = 0
  | [_, _, z] => z % 4 = 0
  | _ :: _ :: _ :: _ :: rest => Whole rest

instance decidableWhole : (sextets : List ℕ) → Decidable (Whole sextets)
  | [] => isTrue trivial
  | [_] => isFalse id
  | [_, y] => inferInstanceAs (Decidable (y % 16 = 0))
  | [_, _, z] => inferInstanceAs (Decidable (z % 4 = 0))
  | _ :: _ :: _ :: _ :: rest => decidableWhole rest

/-- A list is taken apart in threes. -/
theorem threes_induction {α : Type} {motive : List α → Prop} (nil : motive []) (one : ∀ a, motive [a])
    (two : ∀ a b, motive [a, b]) (three : ∀ a b c rest, motive rest → motive (a :: b :: c :: rest)) (l : List α) :
    motive l := by
  induction hlength : l.length using Nat.strong_induction_on generalizing l with
  | _ n ih =>
      cases l with
      | nil => exact nil
      | cons a l =>
          cases l with
          | nil => exact one a
          | cons b l =>
              cases l with
              | nil => exact two a b
              | cons c rest =>
                  refine three a b c rest (ih rest.length ?_ rest rfl)
                  rw [← hlength, List.length_cons, List.length_cons, List.length_cons]
                  omega

variable {bytes sextets : List ℕ}

theorem toBytes_ofBytes (hbytes : ∀ b ∈ bytes, b < 256) : toBytes (ofBytes bytes) = bytes := by
  induction bytes using ofBytes.induct with
  | case1 => rfl
  | case2 a =>
      simp only [ofBytes, toBytes, List.cons.injEq, and_true]
      omega
  | case3 a b =>
      simp only [List.forall_mem_cons] at hbytes
      simp only [ofBytes, toBytes, List.cons.injEq, and_true]
      constructor <;> omega
  | case4 a b c rest ih =>
      simp only [List.forall_mem_cons] at hbytes
      rw [ofBytes, toBytes, ih hbytes.2.2.2]
      simp only [List.cons.injEq, and_true]
      refine ⟨?_, ?_, ?_⟩ <;> omega

theorem whole_ofBytes (bytes : List ℕ) : Whole (ofBytes bytes) := by
  induction bytes using ofBytes.induct with
  | case1 => trivial
  | case2 a => exact Nat.mul_mod_left _ _
  | case3 a b => exact Nat.mul_mod_left _ _
  | case4 a b c rest ih => exact ih

theorem ofBytes_lt (hbytes : ∀ b ∈ bytes, b < 256) : ∀ x ∈ ofBytes bytes, x < 64 := by
  induction bytes using ofBytes.induct with
  | case1 => exact fun x hx => absurd hx List.not_mem_nil
  | case2 a =>
      simp only [ofBytes, List.forall_mem_cons] at hbytes ⊢
      refine ⟨?_, ?_, fun x hx => absurd hx List.not_mem_nil⟩ <;> omega
  | case3 a b =>
      simp only [ofBytes, List.forall_mem_cons] at hbytes ⊢
      refine ⟨?_, ?_, ?_, fun x hx => absurd hx List.not_mem_nil⟩ <;> omega
  | case4 a b c rest ih =>
      simp only [ofBytes, List.forall_mem_cons] at hbytes ⊢
      refine ⟨?_, ?_, ?_, ?_, ih hbytes.2.2.2⟩ <;> omega

theorem toBytes_lt (hsextets : ∀ x ∈ sextets, x < 64) : ∀ b ∈ toBytes sextets, b < 256 := by
  induction sextets using toBytes.induct with
  | case1 => exact fun x hx => absurd hx List.not_mem_nil
  | case2 => exact fun x hx => absurd hx List.not_mem_nil
  | case3 x y =>
      simp only [toBytes, List.forall_mem_cons] at hsextets ⊢
      refine ⟨?_, fun x hx => absurd hx List.not_mem_nil⟩
      omega
  | case4 x y z =>
      simp only [toBytes, List.forall_mem_cons] at hsextets ⊢
      refine ⟨?_, ?_, fun x hx => absurd hx List.not_mem_nil⟩ <;> omega
  | case5 x y z w rest ih =>
      simp only [toBytes, List.forall_mem_cons] at hsextets ⊢
      refine ⟨?_, ?_, ?_, ih hsextets.2.2.2.2⟩ <;> omega

/-- Whole sextets are those of their bytes. -/
theorem ofBytes_toBytes (hwhole : Whole sextets) (hsextets : ∀ x ∈ sextets, x < 64) :
    ofBytes (toBytes sextets) = sextets := by
  induction sextets using toBytes.induct with
  | case1 => rfl
  | case2 => exact hwhole.elim
  | case3 x y =>
      have hbits : y % 16 = 0 := hwhole
      simp only [List.forall_mem_cons] at hsextets
      simp only [toBytes, ofBytes, List.cons.injEq, and_true]
      constructor <;> omega
  | case4 x y z =>
      have hbits : z % 4 = 0 := hwhole
      simp only [List.forall_mem_cons] at hsextets
      simp only [toBytes, ofBytes, List.cons.injEq, and_true]
      refine ⟨?_, ?_, ?_⟩ <;> omega
  | case5 x y z w rest ih =>
      simp only [List.forall_mem_cons] at hsextets
      rw [toBytes, ofBytes, ih hwhole hsextets.2.2.2.2]
      simp only [List.cons.injEq, and_true]
      refine ⟨?_, ?_, ?_, ?_⟩ <;> omega

end Sextets
