import Mathlib.Logic.Basic

/-! Loops over a list that read and write a state. Before an element the loop may stop or pass the element over; a round
on an element may fail, or leave the loop. The rounds that are taken form a list in which each starts where the one
before it ended, and so do the rounds of several loops one after the other, up to what happens between them. -/

namespace Rounds

/-- A round: the state before it, the element, and the state after it. -/
structure Round (σ ι : Type*) where
  before : σ
  input : ι
  after : σ

/-- What a loop does: `goesOn` reads the elements behind the next one, and a round that yields something leaves the
loop with it. -/
structure Body (σ ι ω ε : Type*) where
  goesOn : List ι → σ → Bool
  passesOver : σ → ι → Bool
  step : σ → ι → Except ε (Option ω × σ)

variable {σ ι ω ε : Type*} (body : Body σ ι ω ε)

/-- The rounds of a loop, and how it ends. -/
def loop : List ι → σ → List (Round σ ι) × Except ε (Option ω × σ)
  | [], s => ([], .ok (none, s))
  | i :: is, s =>
      if body.goesOn is s then
        if body.passesOver s i then loop is s
        else
          match body.step s i with
          | .error e => ([], .error e)
          | .ok (none, s') =>
              let rest := loop is s'
              (⟨s, i, s'⟩ :: rest.1, rest.2)
          | .ok (some w, s') => ([⟨s, i, s'⟩], .ok (some w, s'))
      else ([], .ok (none, s))

variable {body} {is : List ι} {i : ι} {s s' : σ} {o : Option ω}

/-- A loop on a first element: it passes it over, fails on it, takes a round and goes on or leaves, or stops. -/
theorem loop_cons_cases (body : Body σ ι ω ε) (i : ι) (is : List ι) (s : σ) :
    (body.passesOver s i = true ∧ loop body (i :: is) s = loop body is s) ∨
    (∃ e, loop body (i :: is) s = ([], .error e)) ∨
    (∃ s', body.passesOver s i = false ∧ body.step s i = .ok (none, s') ∧
      loop body (i :: is) s = (⟨s, i, s'⟩ :: (loop body is s').1, (loop body is s').2)) ∨
    (∃ w s', body.passesOver s i = false ∧ body.step s i = .ok (some w, s') ∧
      loop body (i :: is) s = ([⟨s, i, s'⟩], .ok (some w, s'))) ∨
    loop body (i :: is) s = ([], .ok (none, s)) := by
  rw [loop]
  cases body.goesOn is s with
  | false => exact .inr (.inr (.inr (.inr rfl)))
  | true =>
      rw [if_pos rfl]
      cases body.passesOver s i with
      | true => exact .inl ⟨rfl, rfl⟩
      | false =>
          rw [if_neg Bool.false_ne_true]
          cases body.step s i with
          | error e => exact .inr (.inl ⟨e, rfl⟩)
          | ok result =>
              obtain ⟨outcome, s'⟩ := result
              cases outcome with
              | none => exact .inr (.inr (.inl ⟨s', rfl, rfl, rfl⟩))
              | some w => exact .inr (.inr (.inr (.inl ⟨w, s', rfl, rfl, rfl⟩)))

/-- The loop rule. The invariant may speak of the elements that are left; where passing an element over keeps it, and a
round under it has property `P` and keeps it, every round has property `P`, and the loop ends in the invariant. -/
theorem loop_rule {Inv : List ι → σ → Prop} {P : Round σ ι → Prop}
    (hpass : ∀ i is s, Inv (i :: is) s → Inv is s)
    (hround : ∀ i is s o s', Inv (i :: is) s → body.passesOver s i = false → body.step s i = .ok (o, s') →
      P ⟨s, i, s'⟩ ∧ Inv is s')
    (hinv : Inv is s) :
    (∀ round ∈ (loop body is s).1, P round) ∧
      ∀ o s', (loop body is s).2 = .ok (o, s') → ∃ left, Inv left s' := by
  induction is generalizing s with
  | nil =>
      refine ⟨fun round hmem => absurd hmem List.not_mem_nil, ?_⟩
      intro o s' hend
      cases hend
      exact ⟨[], hinv⟩
  | cons i is ih =>
      rcases loop_cons_cases body i is s with ⟨-, heq⟩ | ⟨e, heq⟩ | ⟨s₁, hover, hstep, heq⟩ |
        ⟨w, s₁, hover, hstep, heq⟩ | heq <;> rw [heq]
      · exact ih (hpass i is s hinv)
      · exact ⟨fun round hmem => absurd hmem List.not_mem_nil, fun o s' hend => by cases hend⟩
      · obtain ⟨hfirst, hnext⟩ := hround i is s none s₁ hinv hover hstep
        obtain ⟨hrest, hend⟩ := ih hnext
        exact ⟨List.forall_mem_cons.mpr ⟨hfirst, hrest⟩, hend⟩
      · obtain ⟨hfirst, hnext⟩ := hround i is s (some w) s₁ hinv hover hstep
        refine ⟨List.forall_mem_cons.mpr ⟨hfirst, fun round hmem => absurd hmem List.not_mem_nil⟩, ?_⟩
        intro o s' hend
        cases hend
        exact ⟨is, hnext⟩
      · refine ⟨fun round hmem => absurd hmem List.not_mem_nil, ?_⟩
        intro o s' hend
        cases hend
        exact ⟨_, hinv⟩

/-! ### Rounds one after the other -/

/-- Each round starts from where the one before it ended, up to `Between`. -/
def Chained (Between : σ → σ → Prop) : σ → List (Round σ ι) → Prop
  | _, [] => True
  | s, round :: rounds => Between s round.before ∧ Chained Between round.after rounds

/-- The state behind some rounds. -/
def endOf : σ → List (Round σ ι) → σ
  | s, [] => s
  | _, round :: rounds => endOf round.after rounds

variable {Between : σ → σ → Prop} {rounds rounds' : List (Round σ ι)}

theorem Chained.append (hfirst : Chained Between s rounds) (hsecond : Chained Between (endOf s rounds) rounds') :
    Chained Between s (rounds ++ rounds') := by
  induction rounds generalizing s with
  | nil => exact hsecond
  | cons round rounds ih => exact ⟨hfirst.1, ih hfirst.2 hsecond⟩

theorem endOf_append (s : σ) (rounds rounds' : List (Round σ ι)) :
    endOf s (rounds ++ rounds') = endOf (endOf s rounds) rounds' := by
  induction rounds generalizing s with
  | nil => rfl
  | cons round rounds ih => exact ih _

/-- Rounds may start later. -/
theorem Chained.of_between (htrans : ∀ a b c, Between a b → Between b c → Between a c) (hbetween : Between s s')
    (hchained : Chained Between s' rounds) : Chained Between s rounds := by
  cases rounds with
  | nil => trivial
  | cons round rounds => exact ⟨htrans _ _ _ hbetween hchained.1, hchained.2⟩

/-- The rounds of a loop follow each other, and where the loop ends they do. -/
theorem chained_loop (hrefl : ∀ a, Between a a) (is : List ι) (s : σ) :
    Chained Between s (loop body is s).1 ∧
      ∀ o s', (loop body is s).2 = .ok (o, s') → endOf s (loop body is s).1 = s' := by
  induction is generalizing s with
  | nil =>
      refine ⟨trivial, fun o s' hend => ?_⟩
      cases hend
      rfl
  | cons i is ih =>
      rcases loop_cons_cases body i is s with ⟨-, heq⟩ | ⟨e, heq⟩ | ⟨s₁, -, -, heq⟩ | ⟨w, s₁, -, -, heq⟩ | heq <;>
        rw [heq]
      · exact ih s
      · exact ⟨trivial, fun o s' hend => by cases hend⟩
      · exact ⟨⟨hrefl s, (ih s₁).1⟩, (ih s₁).2⟩
      · refine ⟨⟨hrefl s, trivial⟩, fun o s' hend => ?_⟩
        cases hend
        rfl
      · refine ⟨trivial, fun o s' hend => ?_⟩
        cases hend
        rfl

/-- What nothing between rounds and none of the rounds takes away, each of them finds. -/
theorem Chained.finds {Left : σ → Prop} {R : Round σ ι → Prop} (hchained : Chained Between s rounds)
    (hbetween : ∀ a b, Between a b → Left a → Left b)
    (hround : ∀ later ∈ rounds, Left later.before → R later ∧ Left later.after) (hstart : Left s) :
    ∀ later ∈ rounds, R later := by
  induction rounds generalizing s with
  | nil => exact fun later hmem => absurd hmem List.not_mem_nil
  | cons next rounds ih =>
      obtain ⟨hnext, hrest⟩ := List.forall_mem_cons.mp hround
      obtain ⟨hr, hafter⟩ := hnext (hbetween s next.before hchained.1 hstart)
      exact List.forall_mem_cons.mpr ⟨hr, ih hchained.2 hrest hafter⟩

/-- What a round leaves behind, and no later round takes away, every later round finds. -/
theorem Chained.pairwise {Left : Round σ ι → σ → Prop} {R : Round σ ι → Round σ ι → Prop}
    (hchained : Chained Between s rounds) (hbetween : ∀ round a b, Between a b → Left round a → Left round b)
    (hleft : ∀ round ∈ rounds, Left round round.after)
    (hround : ∀ round, ∀ later ∈ rounds, Left round later.before → R round later ∧ Left round later.after) :
    rounds.Pairwise R := by
  induction rounds generalizing s with
  | nil => exact List.Pairwise.nil
  | cons round rounds ih =>
      obtain ⟨hfirst, hrest⟩ := List.forall_mem_cons.mp hleft
      have hlater : ∀ earlier, ∀ later ∈ rounds, Left earlier later.before →
          R earlier later ∧ Left earlier later.after :=
        fun earlier later hmem => hround earlier later (List.mem_cons_of_mem _ hmem)
      exact List.pairwise_cons.mpr
        ⟨hchained.2.finds (hbetween round) (hlater round) hfirst, ih hchained.2 hrest hlater⟩

end Rounds
