import Mathlib.Algebra.GroupWithZero.Nat
import Mathlib.Data.List.Basic

/-! The words of a text and the text of words: splitting at blanks and joining with one. -/

namespace Gridnet

section Words

variable {α : Type} (p : α → Bool)

/-- What stands between the elements with `p`, empty pieces left out. -/
def words (l : List α) : List (List α) := (l.splitOnP p).filter (· ≠ [])

/-- One word. -/
def IsWord (w : List α) : Prop := w ≠ [] ∧ ∀ c ∈ w, p c = false

theorem words_of_isWord {w : List α} (hw : IsWord p w) : words p w = [w] := by
  rw [words, List.splitOnP_eq_singleton hw.2]
  simp [hw.1]

theorem flatMap_words_of_isWord {l : List (List α)} (hl : ∀ w ∈ l, IsWord p w) :
    l.flatMap (words p) = l := by
  induction l with
  | nil => rfl
  | cons w l ih =>
      rw [List.flatMap_cons, words_of_isWord p (hl w List.mem_cons_self),
        ih fun w hw => hl w (List.mem_cons_of_mem _ hw), List.singleton_append]

@[simp] theorem words_nil : words p [] = [] := by
  simp [words]

theorem words_append_cons {sep : α} (hsep : p sep = true) (l l' : List α) :
    words p (l ++ sep :: l') = words p l ++ words p l' := by
  rw [words, List.splitOnP_append_cons l l' hsep, List.filter_append, ← words, ← words]

/-- The words of words joined are those of each of them. -/
theorem words_intercalate {sep : α} (hsep : p sep = true) (l : List (List α)) :
    words p ([sep].intercalate l) = l.flatMap (words p) := by
  induction l with
  | nil => exact words_nil p
  | cons w l ih =>
      by_cases hl : l = []
      · rw [hl, List.intercalate_singleton, List.flatMap_singleton]
      · rw [List.intercalate_cons_of_ne_nil hl, List.append_assoc, List.singleton_append,
          words_append_cons p hsep, ih, List.flatMap_cons]

theorem forall_of_mem_splitOnP {l w : List α} (hw : w ∈ l.splitOnP p) : ∀ c ∈ w, p c = false := by
  induction l generalizing w with
  | nil =>
      rw [List.splitOnP_nil, List.mem_singleton] at hw
      simp [hw]
  | cons c l ih =>
      rw [List.splitOnP_cons_eq_if_modifyHead] at hw
      cases hc : p c with
      | true =>
          rw [if_pos hc] at hw
          obtain rfl | hw := List.mem_cons.mp hw
          · simp
          · exact ih hw
      | false =>
          rw [if_neg (by simp [hc])] at hw
          cases hsplit : l.splitOnP p with
          | nil => exact absurd hsplit (List.splitOnP_ne_nil p l)
          | cons first rest =>
              rw [hsplit, List.modifyHead_cons] at hw
              rw [hsplit] at ih
              obtain rfl | hw := List.mem_cons.mp hw
              · simpa [hc] using ih List.mem_cons_self
              · exact ih (List.mem_cons_of_mem _ hw)

theorem isWord_of_mem_words {l w : List α} (hw : w ∈ words p l) : IsWord p w := by
  obtain ⟨hmem, hne⟩ := List.mem_filter.mp hw
  exact ⟨by simpa using hne, forall_of_mem_splitOnP p hmem⟩

theorem sum_length_splitOnP (l : List α) :
    ((l.splitOnP p).map List.length).sum ≤ l.length := by
  induction l with
  | nil => simp
  | cons c l ih =>
      rw [List.splitOnP_cons_eq_if_modifyHead]
      split_ifs
      · simp only [List.map_cons, List.sum_cons, List.length_nil, List.length_cons]
        omega
      · cases hsplit : l.splitOnP p with
        | nil => exact absurd hsplit (List.splitOnP_ne_nil p l)
        | cons first rest =>
            rw [hsplit] at ih
            simp only [List.map_cons, List.sum_cons, List.modifyHead_cons, List.length_cons] at ih ⊢
            omega

theorem sum_length_filter_le (q : List α → Bool) (l : List (List α)) :
    ((l.filter q).map List.length).sum ≤ (l.map List.length).sum := by
  induction l with
  | nil => simp
  | cons w l ih =>
      rw [List.filter_cons]
      split_ifs <;> simp only [List.map_cons, List.sum_cons] <;> omega

/-- The words of a text are no longer than the text. -/
theorem sum_length_words (l : List α) : ((words p l).map List.length).sum ≤ l.length :=
  Nat.le_trans (sum_length_filter_le _ _) (sum_length_splitOnP p l)

end Words

theorem intercalate_ne_nil {α : Type} (sep : List α) {w : List α} (hw : w ≠ [])
    (l : List (List α)) : sep.intercalate (w :: l) ≠ [] := by
  by_cases hl : l = []
  · rwa [hl, List.intercalate_singleton]
  · rw [List.intercalate_cons_of_ne_nil hl, List.append_assoc]
    exact List.append_ne_nil_of_left_ne_nil hw _

/-- Blocks of words are joined block by block. -/
theorem intercalate_flatMap {α β : Type} (sep : List α) {f : β → List (List α)} {l : List β}
    (hf : ∀ b ∈ l, f b ≠ []) :
    sep.intercalate (l.flatMap f) = sep.intercalate (l.map fun b => sep.intercalate (f b)) := by
  induction l with
  | nil => rfl
  | cons b l ih =>
      have hcons : ∀ ws : List (List α), ws ≠ [] → l ≠ [] →
          sep.intercalate (ws ++ l.flatMap f) = sep.intercalate ws ++ sep ++
            sep.intercalate (l.flatMap f) := by
        intro ws hws hl
        obtain ⟨b', l', rfl⟩ := List.exists_cons_of_ne_nil hl
        have hrest : (b' :: l').flatMap f ≠ [] := by
          rw [List.flatMap_cons]
          exact List.append_ne_nil_of_left_ne_nil (hf b' (by simp)) _
        induction ws with
        | nil => exact absurd rfl hws
        | cons w ws ih =>
            by_cases hnil : ws = []
            · rw [hnil, List.singleton_append, List.intercalate_cons_of_ne_nil hrest,
                List.intercalate_singleton]
            · rw [List.cons_append, List.intercalate_cons_of_ne_nil (by simp [hnil]), ih hnil,
                List.intercalate_cons_of_ne_nil hnil]
              simp only [List.append_assoc]
      by_cases hl : l = []
      · simp [hl]
      · rw [List.flatMap_cons, hcons _ (hf b List.mem_cons_self) hl,
          ih fun b hb => hf b (List.mem_cons_of_mem _ hb), List.map_cons,
          List.intercalate_cons_of_ne_nil (by simpa using hl)]

end Gridnet
