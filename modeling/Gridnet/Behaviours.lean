import Mathlib.Data.Finset.Card
import Mathlib.Order.Interval.Finset.Nat
import Mathlib.Logic.Function.Basic

/-! Specifications by an initial predicate and a next-state relation, and what holds in every state of every
behaviour. Behaviours are infinite and may stutter. Sequences are counted from one. -/

namespace Behaviours

/-- `Init ∧ □[Next]`. -/
structure Specification (σ : Type*) where
  Init : σ → Prop
  Next : σ → σ → Prop

variable {σ : Type*} {S : Specification σ} {P Q Inv : σ → Prop}

/-- A behaviour begins in an initial state, and every step is taken or leaves the state as it is. -/
def Specification.Behaviour (S : Specification σ) (b : ℕ → σ) : Prop :=
  S.Init (b 0) ∧ ∀ n, S.Next (b n) (b (n + 1)) ∨ b (n + 1) = b n

/-- `S ⇒ □P`. -/
def Specification.Always (S : Specification σ) (P : σ → Prop) : Prop :=
  ∀ b, S.Behaviour b → ∀ n, P (b n)

/-- The rule for invariants: what holds at the start and is kept by every step holds always. -/
theorem Specification.always_of_inductive (hinit : ∀ s, S.Init s → Inv s)
    (hstep : ∀ s s', Inv s → S.Next s s' → Inv s') : S.Always Inv := by
  rintro b ⟨hstart, hsteps⟩ n
  induction n with
  | zero => exact hinit _ hstart
  | succ n ih =>
      rcases hsteps n with htaken | hstutter
      · exact hstep _ _ ih htaken
      · rw [hstutter]
        exact ih

/-! ### Functions of several arguments -/

section Functions

variable {α β γ δ : Type*} [DecidableEq α] [DecidableEq β] [DecidableEq γ]

/-- `[f EXCEPT ![a][b] = c]` -/
def except₂ (f : α → β → δ) (a : α) (b : β) (c : δ) : α → β → δ :=
  Function.update f a (Function.update (f a) b c)

/-- `[f EXCEPT ![a][b][c] = d]` -/
def except₃ (f : α → β → γ → δ) (a : α) (b : β) (c : γ) (d : δ) : α → β → γ → δ :=
  except₂ f a b (Function.update (f a b) c d)

@[simp]
theorem except₂_self (f : α → β → δ) (a : α) (b : β) (c : δ) : except₂ f a b c a b = c := by
  unfold except₂
  rw [Function.update_self, Function.update_self]

theorem except₂_of_ne {f : α → β → δ} {a a' : α} {b b' : β} {c : δ} (hne : ¬ (a' = a ∧ b' = b)) :
    except₂ f a b c a' b' = f a' b' := by
  unfold except₂
  rcases eq_or_ne a' a with rfl | ha
  · have hb : b' ≠ b := fun hb => hne ⟨rfl, hb⟩
    rw [Function.update_self, Function.update_of_ne hb]
  · rw [Function.update_of_ne ha]

end Functions

/-! ### Sequences -/

section Sequences

variable {α β : Type*}

/-- The element at a place, counted from one. -/
def elem (s : List α) (i : ℕ) : Option α := s[i - 1]?

/-- The elements from place `m` to place `n`. -/
def SubSeq (s : List α) (m n : ℕ) : List α := (s.take n).drop (m - 1)

/-- A sequence without the element at a place. -/
theorem subSeq_append_subSeq {s : List α} {i : ℕ} (hi : 1 ≤ i) :
    SubSeq s 1 (i - 1) ++ SubSeq s (i + 1) s.length = s.eraseIdx (i - 1) := by
  unfold SubSeq
  rw [Nat.sub_self, List.drop_zero, List.take_length, Nat.add_sub_cancel, List.eraseIdx_eq_take_drop_succ,
    Nat.sub_add_cancel hi]

theorem mem_of_elem {s : List α} {i : ℕ} {a : α} (helem : elem s i = some a) : a ∈ s :=
  List.mem_of_getElem? helem

/-- In a sequence with distinct marks no mark has two places. -/
theorem card_places_le_one [DecidableEq β] {s : List α} {mark : α → β} (hdistinct : (s.map mark).Nodup)
    (b : β) : ((Finset.Icc 1 s.length).filter fun i => (elem s i).map mark = some b).card ≤ 1 := by
  rw [Finset.card_le_one]
  intro i hi j hj
  rw [Finset.mem_filter, Finset.mem_Icc] at hi hj
  obtain ⟨⟨hi, hi'⟩, hib⟩ := hi
  obtain ⟨⟨hj, hj'⟩, hjb⟩ := hj
  unfold elem at hib hjb
  rw [← List.getElem?_map] at hib hjb
  have hsame : i - 1 = j - 1 := by
    apply (List.getElem?_inj _ hdistinct).mp (hib.trans hjb.symm)
    rw [List.length_map]
    omega
  omega

end Sequences

end Behaviours
