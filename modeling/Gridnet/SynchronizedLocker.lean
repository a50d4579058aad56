import Gridnet.Schedules
import Mathlib.Data.Finset.Dedup
import Mathlib.Data.Fintype.Defs
import Mathlib.Data.List.Nodup
import Mathlib.Data.List.Sort

/-! Lockers that take several lockables at once. A locker tries its lockables in their order; where one is taken it lets
go of those that it has, backs off and begins anew, and where trying one throws it unlocks all of them. Threads take
their steps in any order. -/

namespace Gridnet

namespace SynchronizedLocker

/-- Where a thread is in its locker: before `try_lock` of lockable `i`, letting go after lockable `i` was taken, asleep,
in the critical section, in `unlock_n_`, or unlocking after an exception at lockable `i`. -/
inductive Phase where
  | idle
  | trying (i : ℕ)
  | releasing (i j : ℕ)
  | backingOff
  | locked
  | unlocking (k : ℕ)
  | rescuing (i j : ℕ)
  deriving DecidableEq

inductive LockingPolicy where
  | MemoryOrdered
  | SequenceOrdered
  deriving DecidableEq

/-- A lockable of a locker, with its number in the order in which they were added. -/
structure Lockable (Mutex : Type) where
  sequence_id : ℕ
  mutex : Mutex

/-- The lockers of the threads, one for each, of distinct mutexes. -/
structure Lockers (Thread Mutex : Type) where
  policy_ : Thread → LockingPolicy
  lockables_ : Thread → List (Lockable Mutex)
  nodup : ∀ t, ((lockables_ t).map Lockable.mutex).Nodup
  get_address : Mutex → ℕ
  mayThrow : Mutex → Bool
  checksOwner : Mutex → Bool

/-- Which thread is where, and who owns what. -/
structure State (Thread Mutex : Type) where
  phase : Thread → Phase
  owner : Mutex → Option Thread

section Steps

variable {Thread Mutex : Type} (L : Lockers Thread Mutex)

/-- The mutexes of a locker, as `order_lockables_` leaves them. -/
def Lockers.order_lockables_ (t : Thread) : List Mutex :=
  ((L.lockables_ t).mergeSort fun a b =>
    match L.policy_ t with
    | .MemoryOrdered => L.get_address a.mutex ≤ L.get_address b.mutex
    | .SequenceOrdered => a.sequence_id ≤ b.sequence_id).map Lockable.mutex

/-- Everything is free, and nobody has begun. -/
def init : State Thread Mutex where
  phase := fun _ => .idle
  owner := fun _ => none

variable [DecidableEq Thread] [DecidableEq Mutex]

def State.setPhase (s : State Thread Mutex) (t : Thread) (phase : Phase) : State Thread Mutex :=
  { s with phase := Function.update s.phase t phase }

/-- `unlock`: a mutex that checks who owns it throws where another thread does, and the exception is swallowed. -/
def State.letGo (s : State Thread Mutex) (t : Thread) (m : Mutex) : State Thread Mutex :=
  if L.checksOwner m = true ∧ s.owner m ≠ some t then s else { s with owner := Function.update s.owner m none }

/-- The next step of a thread: outside it calls `lock`, and in the critical section `unlock`. A `try_lock` that may
throw does so where the turn says it does. -/
def step (s : State Thread Mutex) (turn : Thread × Bool) : State Thread Mutex :=
  let t := turn.1
  let mutexes := L.order_lockables_ t
  match s.phase t with
  | .idle => if mutexes = [] then s else s.setPhase t (.trying 0)
  | .trying i =>
      match mutexes[i]? with
      | none => s.setPhase t .locked
      | some m =>
          if turn.2 = true ∧ L.mayThrow m = true then s.setPhase t (.rescuing i 0)
          else if s.owner m = none then
            { s with owner := Function.update s.owner m (some t) }.setPhase t (.trying (i + 1))
          else s.setPhase t (.releasing i 0)
  | .releasing i j =>
      if j < i then
        match mutexes[j]? with
        | none => s.setPhase t .backingOff
        | some m => (s.letGo L t m).setPhase t (.releasing i (j + 1))
      else s.setPhase t .backingOff
  | .backingOff => s.setPhase t (.trying 0)
  | .locked => s.setPhase t (.unlocking 0)
  | .unlocking k =>
      match mutexes.reverse[k]? with
      | none => s.setPhase t .idle
      | some m => (s.letGo L t m).setPhase t (.unlocking (k + 1))
  | .rescuing i j =>
      match mutexes[j]? with
      | none => s.setPhase t .idle
      | some m => (s.letGo L t m).setPhase t (.rescuing i (j + 1))

end Steps

section Holding

variable {Thread Mutex : Type} (L : Lockers Thread Mutex)

/-- What a thread has. -/
def Lockers.held (t : Thread) : Phase → List Mutex
  | .idle => []
  | .trying i => (L.order_lockables_ t).take i
  | .releasing i j => ((L.order_lockables_ t).take i).drop j
  | .backingOff => []
  | .locked => L.order_lockables_ t
  | .unlocking k => (L.order_lockables_ t).reverse.drop k
  | .rescuing i j => ((L.order_lockables_ t).take i).drop j

/-- From a lockable that may throw on, a locker has only such that check who owns them and such that no other has. -/
def Lockers.Sound : Prop :=
  ∀ t (i j : ℕ) m m', (L.order_lockables_ t)[i]? = some m → L.mayThrow m = true → i ≤ j →
    (L.order_lockables_ t)[j]? = some m' → L.checksOwner m' = true ∨ ∀ u ≠ t, m' ∉ L.order_lockables_ u

/-- Every thread owns what it has, and nothing else is owned; and only what may throw has thrown. -/
structure Consistent (s : State Thread Mutex) : Prop where
  owner_iff : ∀ m t, s.owner m = some t ↔ m ∈ L.held t (s.phase t)
  thrown : ∀ t i j, s.phase t = .rescuing i j → ∃ m, (L.order_lockables_ t)[i]? = some m ∧ L.mayThrow m = true

variable {L}

theorem order_lockables_nodup (L : Lockers Thread Mutex) (t : Thread) : (L.order_lockables_ t).Nodup :=
  ((List.mergeSort_perm (L.lockables_ t) _).map Lockable.mutex).nodup_iff.mpr (L.nodup t)

theorem init_consistent : Consistent L (init : State Thread Mutex) where
  owner_iff := fun m t => by simp [init, Lockers.held]
  thrown := fun t i j hphase => by cases hphase

theorem held_subset {t : Thread} {m : Mutex} (phase : Phase)
    (hm : m ∈ L.held t phase) : m ∈ L.order_lockables_ t := by
  cases phase with
  | idle => cases hm
  | trying i => exact List.mem_of_mem_take hm
  | releasing i j => exact List.mem_of_mem_take (List.mem_of_mem_drop hm)
  | backingOff => cases hm
  | locked => exact hm
  | unlocking k => exact List.mem_reverse.mp (List.mem_of_mem_drop hm)
  | rescuing i j => exact List.mem_of_mem_take (List.mem_of_mem_drop hm)

/-- Outside of its locker, or asleep in it. -/
def Phase.Rests (phase : Phase) : Prop := phase = .idle ∨ phase = .backingOff

theorem held_of_rests {t : Thread} {phase : Phase} (hrests : phase.Rests) : L.held t phase = [] := by
  rcases hrests with rfl | rfl <;> rfl

theorem mem_drop_succ {l : List Mutex} (hnodup : l.Nodup) {j : ℕ} {m m' : Mutex} (hm : l[j]? = some m) :
    m' ∈ l.drop (j + 1) ↔ m' ∈ l.drop j ∧ m' ≠ m := by
  obtain ⟨hlt, rfl⟩ := List.getElem?_eq_some_iff.mp hm
  have hfresh : l[j] ∉ l.drop (j + 1) := by
    have hdrop := hnodup.sublist (List.drop_sublist j l)
    rw [List.drop_eq_getElem_cons hlt, List.nodup_cons] at hdrop
    exact hdrop.1
  rw [List.drop_eq_getElem_cons hlt, List.mem_cons]
  constructor
  · intro hmem
    exact ⟨.inr hmem, fun hsame => hfresh (hsame ▸ hmem)⟩
  · rintro ⟨hsame | hmem, hne⟩
    · exact absurd hsame hne
    · exact hmem

theorem not_mem_take {l : List Mutex} (hnodup : l.Nodup) {i : ℕ} {m : Mutex} (hm : l[i]? = some m) :
    m ∉ l.take i := by
  obtain ⟨hlt, rfl⟩ := List.getElem?_eq_some_iff.mp hm
  intro hmem
  obtain ⟨k, hk, hsame⟩ := List.mem_take_iff_getElem.mp hmem
  have heq := (hnodup.getElem_inj_iff).mp hsame
  omega

variable [DecidableEq Thread] {s : State Thread Mutex} {t u : Thread} {m : Mutex} {phase : Phase}

@[simp] theorem setPhase_self : (s.setPhase t phase).phase t = phase := Function.update_self ..

theorem setPhase_of_ne (hne : u ≠ t) : (s.setPhase t phase).phase u = s.phase u := Function.update_of_ne hne ..

@[simp] theorem setPhase_owner : (s.setPhase t phase).owner = s.owner := rfl

/-- A thread goes on without taking or letting go of anything. -/
theorem Consistent.goOn (hs : Consistent L s) (hheld : ∀ m, m ∈ L.held t phase ↔ m ∈ L.held t (s.phase t))
    (hthrown : ∀ i j, phase = .rescuing i j → ∃ m, (L.order_lockables_ t)[i]? = some m ∧ L.mayThrow m = true) :
    Consistent L (s.setPhase t phase) where
  owner_iff := by
    intro m u
    rw [setPhase_owner, hs.owner_iff]
    by_cases hu : u = t
    · subst hu
      rw [setPhase_self, hheld]
    · rw [setPhase_of_ne hu]
  thrown := by
    intro u i j hphase
    by_cases hu : u = t
    · subst hu
      exact hthrown i j (setPhase_self.symm.trans hphase)
    · exact hs.thrown u i j ((setPhase_of_ne hu).symm.trans hphase)

variable [DecidableEq Mutex]

/-- A thread takes a free mutex. -/
theorem Consistent.take (hs : Consistent L s) {i : ℕ} (hphase : s.phase t = .trying i)
    (hm : (L.order_lockables_ t)[i]? = some m) (hfree : s.owner m = none) :
    Consistent L ({ s with owner := Function.update s.owner m (some t) }.setPhase t (.trying (i + 1))) where
  owner_iff := by
    intro m' u
    have hheld : m' ∈ L.held t (.trying (i + 1)) ↔ m' ∈ L.held t (s.phase t) ∨ m' = m := by
      rw [hphase, Lockers.held, Lockers.held, List.take_add_one, hm, Option.toList_some, List.mem_append,
        List.mem_singleton]
    rw [setPhase_owner]
    dsimp only
    by_cases hsame : m' = m
    · subst hsame
      rw [Function.update_self, Option.some.injEq]
      by_cases hu : u = t
      · subst hu
        rw [setPhase_self, hheld]
        exact iff_of_true rfl (.inr rfl)
      · rw [setPhase_of_ne hu]
        refine iff_of_false (Ne.symm hu) fun hmem => ?_
        cases hfree.symm.trans ((hs.owner_iff m' u).mpr hmem)
    · rw [Function.update_of_ne hsame, hs.owner_iff]
      by_cases hu : u = t
      · subst hu
        rw [setPhase_self, hheld, or_iff_left hsame]
      · rw [setPhase_of_ne hu]
  thrown := by
    intro u i' j hrescue
    by_cases hu : u = t
    · subst hu
      cases setPhase_self.symm.trans hrescue
    · exact hs.thrown u i' j ((setPhase_of_ne hu).symm.trans hrescue)

/-- A thread lets go of a mutex that checks who owns it, or that no other owns. -/
theorem Consistent.letGo (hs : Consistent L s) (hm : L.checksOwner m = true ∨ ∀ u, s.owner m = some u → u = t)
    (hheld : ∀ m', m' ∈ L.held t phase ↔ m' ∈ L.held t (s.phase t) ∧ m' ≠ m)
    (hthrown : ∀ i j, phase = .rescuing i j → ∃ m, (L.order_lockables_ t)[i]? = some m ∧ L.mayThrow m = true) :
    Consistent L ((s.letGo L t m).setPhase t phase) := by
  by_cases howner : s.owner m = some t
  · have hfreed : s.letGo L t m = { s with owner := Function.update s.owner m none } :=
      if_neg fun h => h.2 howner
    rw [hfreed]
    refine ⟨fun m' u => ?_, fun u i j hrescue => ?_⟩
    · rw [setPhase_owner]
      dsimp only
      by_cases hsame : m' = m
      · subst hsame
        rw [Function.update_self]
        refine iff_of_false (fun hnone => by cases hnone) fun hmem => ?_
        by_cases hu : u = t
        · subst hu
          rw [setPhase_self, hheld] at hmem
          exact hmem.2 rfl
        · rw [setPhase_of_ne hu] at hmem
          exact hu (Option.some.inj (((hs.owner_iff m' u).mpr hmem).symm.trans howner))
      · rw [Function.update_of_ne hsame, hs.owner_iff]
        by_cases hu : u = t
        · subst hu
          rw [setPhase_self, hheld, and_iff_left hsame]
        · rw [setPhase_of_ne hu]
    · by_cases hu : u = t
      · subst hu
        exact hthrown i j (setPhase_self.symm.trans hrescue)
      · exact hs.thrown u i j ((setPhase_of_ne hu).symm.trans hrescue)
  · have hnot : m ∉ L.held t (s.phase t) := fun hmem => howner ((hs.owner_iff m t).mpr hmem)
    have hkept : s.letGo L t m = s := by
      refine hm.elim (fun hchecks => if_pos ⟨hchecks, howner⟩) fun hown => ?_
      have hfree : s.owner m = none := by
        refine Option.eq_none_iff_forall_not_mem.mpr fun u hu => ?_
        obtain rfl := hown u hu
        exact howner hu
      unfold State.letGo
      rw [← hfree, Function.update_eq_self, ite_self]
    rw [hkept]
    refine hs.goOn (fun m' => ?_) hthrown
    rw [hheld]
    exact and_iff_left_of_imp fun hmem hsame => hnot (hsame ▸ hmem)

end Holding

/-! ### Safety -/

section Safety

variable {Thread Mutex : Type} [DecidableEq Thread] [DecidableEq Mutex] {L : Lockers Thread Mutex}
  {s : State Thread Mutex} {t u : Thread}

omit [DecidableEq Thread] [DecidableEq Mutex] in
theorem Consistent.owner_of_held (hs : Consistent L s) {m : Mutex} (hm : m ∈ L.held t (s.phase t)) :
    ∀ u, s.owner m = some u → u = t := by
  intro u hu
  exact Option.some.inj (hu.symm.trans ((hs.owner_iff m t).mpr hm))

/-- Letting go of the lockables before the `i`-th one by one, also after an exception, which goes on to the end. -/
theorem Consistent.letGo_drop (hs : Consistent L s) {i j : ℕ} {m : Mutex} {phase : Phase}
    (hphase : L.held t (s.phase t) = ((L.order_lockables_ t).take i).drop j)
    (hnext : L.held t phase = ((L.order_lockables_ t).take i).drop (j + 1))
    (hm : (L.order_lockables_ t)[j]? = some m)
    (hsafe : i ≤ j → L.checksOwner m = true ∨ ∀ u, s.owner m = some u → u = t)
    (hthrown : ∀ i j, phase = .rescuing i j → ∃ m, (L.order_lockables_ t)[i]? = some m ∧ L.mayThrow m = true) :
    Consistent L ((s.letGo L t m).setPhase t phase) := by
  have hnodup := (order_lockables_nodup L t).sublist (List.take_sublist i _)
  by_cases hj : j < i
  · have htaken : ((L.order_lockables_ t).take i)[j]? = some m := by rw [List.getElem?_take_of_lt hj, hm]
    refine hs.letGo (.inr (hs.owner_of_held ?_)) (fun m' => ?_) hthrown
    · rw [hphase]
      obtain ⟨hlt, rfl⟩ := List.getElem?_eq_some_iff.mp htaken
      rw [List.drop_eq_getElem_cons hlt]
      exact List.mem_cons_self
    · rw [hphase, hnext]
      exact mem_drop_succ hnodup htaken
  · have hlength : ((L.order_lockables_ t).take i).length ≤ j := (List.length_take_le ..).trans (not_lt.mp hj)
    refine hs.letGo (hsafe (not_lt.mp hj)) (fun m' => ?_) hthrown
    rw [hphase, hnext, List.drop_eq_nil_of_le hlength, List.drop_eq_nil_of_le (hlength.trans (Nat.le_succ j))]
    exact iff_of_false List.not_mem_nil fun h => List.not_mem_nil h.1

/-- A step of any thread, whether `try_lock` throws or not. After an exception it must not let go of what another
has. -/
theorem Consistent.step {turn : Thread × Bool} (hs : Consistent L s)
    (hsafe : ∀ i j m, s.phase turn.1 = .rescuing i j → (L.order_lockables_ turn.1)[j]? = some m → i ≤ j →
      L.checksOwner m = true ∨ ∀ u, s.owner m = some u → u = turn.1) :
    Consistent L (step L s turn) := by
  obtain ⟨t, throws⟩ := turn
  unfold SynchronizedLocker.step
  dsimp only at hsafe ⊢
  cases hphase : s.phase t with
  | idle =>
      dsimp only
      split_ifs
      · exact hs
      · exact hs.goOn (fun m => by rw [hphase]; rfl) fun i j hrescue => by cases hrescue
  | trying i =>
      dsimp only
      cases hm : (L.order_lockables_ t)[i]? with
      | none =>
          refine hs.goOn (fun m => ?_) fun i j hrescue => by cases hrescue
          rw [hphase, Lockers.held, Lockers.held, List.take_of_length_le (List.getElem?_eq_none_iff.mp hm)]
      | some m =>
          dsimp only
          split_ifs with hthrows hfree
          · refine hs.goOn (fun m => by rw [hphase]; rfl) fun i' j hrescue => ?_
            cases hrescue
            exact ⟨m, hm, hthrows.2⟩
          · exact hs.take hphase hm hfree
          · exact hs.goOn (fun m => by rw [hphase]; rfl) fun i j hrescue => by cases hrescue
  | releasing i j =>
      dsimp only
      split_ifs with hj
      · cases hm : (L.order_lockables_ t)[j]? with
        | none =>
            refine hs.goOn (fun m => ?_) fun i j hrescue => by cases hrescue
            have hlength : ((L.order_lockables_ t).take i).length ≤ j :=
              (List.length_take_le' ..).trans (List.getElem?_eq_none_iff.mp hm)
            rw [hphase, Lockers.held, Lockers.held, List.drop_eq_nil_of_le hlength]
        | some m =>
            refine hs.letGo_drop (by rw [hphase]; rfl) rfl hm (fun hij => absurd hj (not_lt.mpr hij)) ?_
            exact fun i j hrescue => by cases hrescue
      · refine hs.goOn (fun m => ?_) fun i j hrescue => by cases hrescue
        have hlength : ((L.order_lockables_ t).take i).length ≤ j := (List.length_take_le ..).trans (not_lt.mp hj)
        rw [hphase, Lockers.held, Lockers.held, List.drop_eq_nil_of_le hlength]
  | backingOff => exact hs.goOn (fun m => by rw [hphase]; rfl) fun i j hrescue => by cases hrescue
  | locked =>
      refine hs.goOn (fun m => ?_) fun i j hrescue => by cases hrescue
      rw [hphase, Lockers.held, Lockers.held, List.drop_zero, List.mem_reverse]
  | unlocking k =>
      dsimp only
      cases hm : (L.order_lockables_ t).reverse[k]? with
      | none =>
          refine hs.goOn (fun m => ?_) fun i j hrescue => by cases hrescue
          rw [hphase, Lockers.held, Lockers.held, List.drop_eq_nil_of_le (List.getElem?_eq_none_iff.mp hm)]
      | some m =>
          refine hs.letGo (.inr (hs.owner_of_held ?_)) (fun m' => ?_) fun i j hrescue => by cases hrescue
          · obtain ⟨hlt, rfl⟩ := List.getElem?_eq_some_iff.mp hm
            rw [hphase, Lockers.held, List.drop_eq_getElem_cons hlt]
            exact List.mem_cons_self
          · rw [hphase]
            exact mem_drop_succ (List.nodup_reverse.mpr (order_lockables_nodup L t)) hm
  | rescuing i j =>
      dsimp only
      cases hm : (L.order_lockables_ t)[j]? with
      | none =>
          refine hs.goOn (fun m => ?_) fun i j hrescue => by cases hrescue
          have hlength : ((L.order_lockables_ t).take i).length ≤ j :=
            (List.length_take_le' ..).trans (List.getElem?_eq_none_iff.mp hm)
          rw [hphase, Lockers.held, Lockers.held, List.drop_eq_nil_of_le hlength]
      | some m =>
          refine hs.letGo_drop (by rw [hphase]; rfl) rfl hm (hsafe i j m hphase hm) fun i' j' hrescue => ?_
          cases hrescue
          exact hs.thrown t i j hphase

theorem Consistent.step_of_sound (hsound : L.Sound) (hs : Consistent L s) (turn : Thread × Bool) :
    Consistent L (SynchronizedLocker.step L s turn) := by
  refine hs.step fun i j m hphase hm hij => ?_
  obtain ⟨m₀, hm₀, hthrow⟩ := hs.thrown turn.1 i j hphase
  refine (hsound turn.1 i j m₀ m hm₀ hthrow hij hm).imp_right fun hnone u hu => ?_
  by_contra hne
  exact hnone u hne (held_subset _ ((hs.owner_iff m u).mp hu))

theorem run_consistent (hsound : L.Sound) (schedule : List (Thread × Bool)) :
    Consistent L (Schedules.run (SynchronizedLocker.step L) init schedule) :=
  Schedules.run_invariant (fun _ turn hs => hs.step_of_sound hsound turn) init_consistent schedule

/-- A step moves no thread but the one whose turn it is. -/
theorem step_phase_of_ne {turn : Thread × Bool} (hne : u ≠ turn.1) : (step L s turn).phase u = s.phase u := by
  have hletGo : ∀ m, (s.letGo L turn.1 m).phase = s.phase := by
    intro m
    unfold State.letGo
    split_ifs <;> rfl
  unfold step
  cases s.phase turn.1 <;> dsimp only <;> repeat' split
  all_goals simp only [setPhase_of_ne hne, hletGo]

end Safety

/-! ### Every thread gets through -/

section Progress

variable {Thread Mutex : Type} [DecidableEq Thread] [DecidableEq Mutex] {L : Lockers Thread Mutex}
  {s : State Thread Mutex} {t u : Thread}

/-- How far a thread of `n` lockables that goes on alone is from resting, at most. -/
def Phase.toRest (n : ℕ) : Phase → ℕ
  | .idle => 0
  | .trying i => n - i + n + 3
  | .releasing i j => i - j + 1
  | .backingOff => 0
  | .locked => n + 2
  | .unlocking k => n - k + 1
  | .rescuing _ j => n - j + 1

/-- How far it is from the critical section, when the others rest. -/
def Phase.toLocked (n : ℕ) : Phase → ℕ
  | .idle => n + 2
  | .trying i => n - i + 1
  | .releasing i j => i - j + n + 3
  | .backingOff => n + 2
  | .locked => 0
  | .unlocking k => n - k + n + 3
  | .rescuing _ j => n - j + n + 3

theorem toRest_step (hmoves : ¬(s.phase t).Rests) :
    ((step L s (t, false)).phase t).toRest (L.order_lockables_ t).length <
      (s.phase t).toRest (L.order_lockables_ t).length := by
  unfold step
  dsimp only
  cases hphase : s.phase t with
  | idle => exact absurd (.inl hphase) hmoves
  | backingOff => exact absurd (.inr hphase) hmoves
  | trying i =>
      dsimp only
      cases hm : (L.order_lockables_ t)[i]? with
      | none =>
          simp only [setPhase_self, Phase.toRest]
          omega
      | some m =>
          obtain ⟨hlt, -⟩ := List.getElem?_eq_some_iff.mp hm
          simp only [Bool.false_eq_true, false_and, if_false]
          split_ifs <;> simp only [setPhase_self, Phase.toRest] <;> omega
  | releasing i j =>
      dsimp only
      split_ifs with hj
      · cases (L.order_lockables_ t)[j]? <;> simp only [setPhase_self, Phase.toRest] <;> omega
      · simp [Phase.toRest]
  | locked => simp [Phase.toRest]
  | unlocking k =>
      dsimp only
      cases hm : (L.order_lockables_ t).reverse[k]? with
      | none => simp [Phase.toRest]
      | some m =>
          obtain ⟨hlt, -⟩ := List.getElem?_eq_some_iff.mp hm
          rw [List.length_reverse] at hlt
          simp only [setPhase_self, Phase.toRest]
          omega
  | rescuing i j =>
      dsimp only
      cases hm : (L.order_lockables_ t)[j]? with
      | none => simp [Phase.toRest]
      | some m =>
          obtain ⟨hlt, -⟩ := List.getElem?_eq_some_iff.mp hm
          simp only [setPhase_self, Phase.toRest]
          omega

/-- Nobody but `t` has anything. -/
structure Solo (L : Lockers Thread Mutex) (t : Thread) (s : State Thread Mutex) : Prop where
  consistent : Consistent L s
  others : ∀ u ≠ t, L.held u (s.phase u) = []

omit [DecidableEq Thread] [DecidableEq Mutex] in
theorem Solo.owner (hs : Solo L t s) (m : Mutex) : ∀ u, s.owner m = some u → u = t := by
  intro u howns
  by_contra hu
  have hmem := (hs.consistent.owner_iff m u).mp howns
  rw [hs.others u hu] at hmem
  cases hmem

omit [DecidableEq Thread] [DecidableEq Mutex] in
/-- What the thread that is alone tries next is free. -/
theorem Solo.free (hs : Solo L t s) {i : ℕ} {m : Mutex} (hphase : s.phase t = .trying i)
    (hm : (L.order_lockables_ t)[i]? = some m) : s.owner m = none := by
  refine Option.eq_none_iff_forall_not_mem.mpr fun u howns => ?_
  obtain rfl := hs.owner m u howns
  have hmem := (hs.consistent.owner_iff m u).mp howns
  rw [hphase] at hmem
  exact not_mem_take (order_lockables_nodup L u) hm hmem

theorem Solo.step (hs : Solo L t s) (throws : Bool) : Solo L t (step L s (t, throws)) where
  consistent := hs.consistent.step fun i j m _ _ _ => .inr (hs.owner m)
  others := fun u hu => by rw [step_phase_of_ne hu, hs.others u hu]

theorem toLocked_step (hs : Solo L t s) (hsome : L.order_lockables_ t ≠ []) (hmoves : s.phase t ≠ .locked) :
    ((step L s (t, false)).phase t).toLocked (L.order_lockables_ t).length <
      (s.phase t).toLocked (L.order_lockables_ t).length := by
  unfold SynchronizedLocker.step
  dsimp only
  cases hphase : s.phase t with
  | idle => simp [hsome, Phase.toLocked]
  | backingOff => simp [Phase.toLocked]
  | locked => exact absurd hphase hmoves
  | trying i =>
      dsimp only
      cases hm : (L.order_lockables_ t)[i]? with
      | none => simp [Phase.toLocked]
      | some m =>
          obtain ⟨hlt, -⟩ := List.getElem?_eq_some_iff.mp hm
          simp only [Bool.false_eq_true, false_and, if_false, hs.free hphase hm, if_true, setPhase_self, Phase.toLocked]
          omega
  | releasing i j =>
      dsimp only
      split_ifs with hj
      · cases (L.order_lockables_ t)[j]? <;> simp only [setPhase_self, Phase.toLocked] <;> omega
      · simp only [setPhase_self, Phase.toLocked]
        omega
  | unlocking k =>
      dsimp only
      cases hm : (L.order_lockables_ t).reverse[k]? with
      | none =>
          simp only [setPhase_self, Phase.toLocked]
          omega
      | some m =>
          obtain ⟨hlt, -⟩ := List.getElem?_eq_some_iff.mp hm
          rw [List.length_reverse] at hlt
          simp only [setPhase_self, Phase.toLocked]
          omega
  | rescuing i j =>
      dsimp only
      cases hm : (L.order_lockables_ t)[j]? with
      | none =>
          simp only [setPhase_self, Phase.toLocked]
          omega
      | some m =>
          obtain ⟨hlt, -⟩ := List.getElem?_eq_some_iff.mp hm
          simp only [setPhase_self, Phase.toLocked]
          omega

theorem run_phase_of_ne (n : ℕ) (hne : u ≠ t) :
    (Schedules.run (step L) s (List.replicate n (t, false))).phase u = s.phase u := by
  induction n generalizing s with
  | zero => rfl
  | succ n ih => exact ih.trans (step_phase_of_ne hne)

/-- A thread that goes on alone comes to rest, and moves no other. -/
theorem comes_to_rest (hsound : L.Sound) (t : Thread) (s : State Thread Mutex) (hs : Consistent L s) :
    ∃ schedule, Consistent L (Schedules.run (step L) s schedule) ∧
      ((Schedules.run (step L) s schedule).phase t).Rests ∧
      ∀ u, (s.phase u).Rests → ((Schedules.run (step L) s schedule).phase u).Rests := by
  obtain ⟨n, hn, hrests⟩ := Schedules.arrives_alone (step L) (fun s => (s.phase t).Rests) (t, false)
    (fun s => (s.phase t).toRest (L.order_lockables_ t).length)
    (fun s hs hmoves => ⟨hs.step_of_sound hsound (t, false), toRest_step hmoves⟩) hs
  refine ⟨_, hn, hrests, fun u hu => ?_⟩
  by_cases hut : u = t
  · exact hut ▸ hrests
  · rwa [run_phase_of_ne n hut]

/-- A thread that goes on alone gets its lockables when nobody else has any. -/
theorem Solo.gets_locked (hs : Solo L t s) (hsome : L.order_lockables_ t ≠ []) :
    ∃ n, Solo L t (Schedules.run (SynchronizedLocker.step L) s (List.replicate n (t, false))) ∧
      (Schedules.run (SynchronizedLocker.step L) s (List.replicate n (t, false))).phase t = .locked :=
  Schedules.arrives_alone (SynchronizedLocker.step L) (fun s => s.phase t = .locked) (t, false)
    (fun s => (s.phase t).toLocked (L.order_lockables_ t).length)
    (fun _ hs hmoves => ⟨hs.step false, toLocked_step hs hsome hmoves⟩) hs

/-- From anywhere, once the others have come to rest. -/
theorem Consistent.gets_locked [Fintype Thread] (hsound : L.Sound) (hs : Consistent L s) (t : Thread)
    (hsome : L.order_lockables_ t ≠ []) :
    ∃ schedule, (Schedules.run (SynchronizedLocker.step L) s schedule).phase t = .locked := by
  obtain ⟨first, hfirst, hrest, -⟩ :=
    Schedules.arrive_in_turn (fun t s => (s.phase t).Rests) (comes_to_rest hsound)
      (Finset.univ : Finset Thread).toList hs
  have hsolo : Solo L t (Schedules.run (SynchronizedLocker.step L) s first) :=
    ⟨hfirst, fun u _ => held_of_rests (hrest u (Finset.mem_toList.mpr (Finset.mem_univ u)))⟩
  obtain ⟨n, -, hlocked⟩ := hsolo.gets_locked hsome
  refine ⟨first ++ List.replicate n (t, false), ?_⟩
  rw [Schedules.run_append]
  exact hlocked

end Progress

/-! ### After an exception -/

section Exception

variable {Thread Mutex : Type} [DecidableEq Thread] [DecidableEq Mutex] {L : Lockers Thread Mutex}
  {s : State Thread Mutex} {t u : Thread}

omit [DecidableEq Thread] [DecidableEq Mutex] in
theorem init_solo (t : Thread) : Solo L t init := ⟨init_consistent, fun _ _ => rfl⟩

theorem Solo.trying_step (hs : Solo L t s) {i : ℕ} {m : Mutex} (hphase : s.phase t = .trying i)
    (hm : (L.order_lockables_ t)[i]? = some m) :
    (SynchronizedLocker.step L s (t, false)).phase t = .trying (i + 1) := by
  unfold SynchronizedLocker.step
  dsimp only
  rw [hphase]
  dsimp only
  rw [hm]
  simp [hs.free hphase hm]

theorem rescuing_step {i j : ℕ} {m : Mutex} (hphase : s.phase t = .rescuing i j)
    (hm : (L.order_lockables_ t)[j]? = some m) :
    step L s (t, false) = (s.letGo L t m).setPhase t (.rescuing i (j + 1)) := by
  unfold SynchronizedLocker.step
  dsimp only
  rw [hphase]
  dsimp only
  rw [hm]

theorem Solo.run (hs : Solo L t s) (n : ℕ) :
    Solo L t (Schedules.run (SynchronizedLocker.step L) s (List.replicate n (t, false))) := by
  induction n generalizing s with
  | zero => exact hs
  | succ n ih => exact ih (hs.step false)

theorem run_replicate_succ (s : State Thread Mutex) (n : ℕ) :
    Schedules.run (step L) s (List.replicate (n + 1) (t, false)) =
      step L (Schedules.run (step L) s (List.replicate n (t, false))) (t, false) := by
  rw [List.replicate_succ', Schedules.run_append]
  rfl

/-- A thread alone gets as far as it wants. -/
theorem Solo.gets_trying (hs : Solo L t s) (hphase : s.phase t = .trying 0) {i : ℕ}
    (hi : i ≤ (L.order_lockables_ t).length) :
    (Schedules.run (SynchronizedLocker.step L) s (List.replicate i (t, false))).phase t = .trying i := by
  induction i with
  | zero => exact hphase
  | succ i ih =>
      rw [run_replicate_succ]
      exact (hs.run i).trying_step (ih (Nat.le_of_succ_le hi)) (List.getElem?_eq_getElem hi)

theorem gets_rescuing {i : ℕ} (hphase : s.phase t = .rescuing i 0) {j : ℕ}
    (hj : j ≤ (L.order_lockables_ t).length) :
    (Schedules.run (step L) s (List.replicate j (t, false))).phase t = .rescuing i j := by
  induction j with
  | zero => exact hphase
  | succ j ih =>
      rw [run_replicate_succ, rescuing_step (ih (Nat.le_of_succ_le hj)) (List.getElem?_eq_getElem hj), setPhase_self]

/-- After an exception at lockable `i` a thread comes to unlock lockable `j`, when it has nothing any more. -/
theorem reaches_rescuing {i j : ℕ} {m m' : Mutex} (hm : (L.order_lockables_ t)[i]? = some m)
    (hthrow : L.mayThrow m = true) (hij : i ≤ j) (hm' : (L.order_lockables_ t)[j]? = some m') :
    ∃ schedule, Consistent L (Schedules.run (step L) init schedule) ∧
      (Schedules.run (step L) init schedule).phase t = .rescuing i j ∧
      ∀ u, L.held u ((Schedules.run (step L) init schedule).phase u) = [] := by
  obtain ⟨hi, -⟩ := List.getElem?_eq_some_iff.mp hm
  obtain ⟨hj, -⟩ := List.getElem?_eq_some_iff.mp hm'
  have hbegun : (step L (init : State Thread Mutex) (t, false)).phase t = .trying 0 := by
    have hsome : L.order_lockables_ t ≠ [] := List.ne_nil_of_length_pos (Nat.zero_lt_of_lt hi)
    simp [step, init, hsome]
  have hbegunSolo : Solo L t (step L (init : State Thread Mutex) (t, false)) := (init_solo t).step false
  have htried := hbegunSolo.run i
  have htrying := hbegunSolo.gets_trying hbegun hi.le
  revert htried htrying
  generalize hs₁ : Schedules.run (step L) (step L init (t, false)) (List.replicate i (t, false)) = s₁
  intro htried htrying
  have hthrown : (step L s₁ (t, true)).phase t = .rescuing i 0 := by
    unfold step
    dsimp only
    rw [htrying]
    dsimp only
    rw [hm]
    simp [hthrow]
  have hsolo := (htried.step true).run j
  have hrescuing := gets_rescuing hthrown hj.le
  refine ⟨(t, false) :: List.replicate i (t, false) ++ (t, true) :: List.replicate j (t, false), ?_⟩
  rw [Schedules.run_append]
  have hfirst : Schedules.run (step L) init ((t, false) :: List.replicate i (t, false)) = s₁ := hs₁
  rw [hfirst]
  refine ⟨hsolo.consistent, hrescuing, fun u => ?_⟩
  by_cases hu : u = t
  · subst hu
    refine (congrArg (L.held u) hrescuing).trans (List.drop_eq_nil_of_le ?_)
    exact (List.length_take_le ..).trans hij
  · exact hsolo.others u hu

/-- What lockers are for. -/
structure Coordinated (L : Lockers Thread Mutex) (s : State Thread Mutex) : Prop where
  exclusive : ∀ t u m, t ≠ u → s.phase t = .locked → s.phase u = .locked → m ∈ L.order_lockables_ t →
    m ∉ L.order_lockables_ u
  whole : ∀ t m, s.phase t = .locked → m ∈ L.order_lockables_ t → s.owner m = some t
  modest : ∀ t m, (s.phase t).Rests → s.owner m ≠ some t
  grantable : ∀ t, L.order_lockables_ t ≠ [] → ∃ schedule, (Schedules.run (step L) s schedule).phase t = .locked

theorem Consistent.coordinated [Fintype Thread] (hsound : L.Sound) (hs : Consistent L s) : Coordinated L s where
  whole := fun t m hlocked hm => (hs.owner_iff m t).mpr (by rwa [hlocked])
  exclusive := by
    intro t u m hne ht hu hmt hmu
    have howner : s.owner m = some t := (hs.owner_iff m t).mpr (by rwa [ht])
    have howner' : s.owner m = some u := (hs.owner_iff m u).mpr (by rwa [hu])
    exact hne (Option.some.inj (howner.symm.trans howner'))
  modest := by
    intro t m hrests howner
    have hmem := (hs.owner_iff m t).mp howner
    rw [held_of_rests hrests] at hmem
    cases hmem
  grantable := fun t hsome => hs.gets_locked hsound t hsome

/-- Where a lockable that another has too can be unlocked after an exception by a thread that does not own it, a locked
thread loses it. -/
theorem sound_of_whole (hwhole : ∀ schedule t m, (Schedules.run (step L) init schedule).phase t = .locked →
    m ∈ L.order_lockables_ t → (Schedules.run (step L) init schedule).owner m = some t) : L.Sound := by
  intro t i j m m' hm hthrow hij hm'
  by_contra hunsafe
  obtain ⟨hchecks, hshared⟩ := not_or.mp hunsafe
  obtain ⟨u, hut, hmu⟩ : ∃ u, u ≠ t ∧ m' ∈ L.order_lockables_ u := by
    by_contra hnone
    exact hshared fun u hut hmu => hnone ⟨u, hut, hmu⟩
  obtain ⟨first, hconsistent, hrescuing, hnothing⟩ := reaches_rescuing hm hthrow hij hm'
  have hsolo : Solo L u (Schedules.run (step L) init first) := ⟨hconsistent, fun v _ => hnothing v⟩
  obtain ⟨n, -, hlocked⟩ := hsolo.gets_locked (List.ne_nil_of_mem hmu)
  rw [← run_phase_of_ne (L := L) n (Ne.symm hut)] at hrescuing
  revert hlocked hrescuing
  rw [← Schedules.run_append]
  generalize first ++ List.replicate n (u, false) = schedule
  intro hrescuing hlocked
  have hstep := rescuing_step hrescuing hm'
  have hlast : Schedules.run (step L) init (schedule ++ [(t, false)]) =
      step L (Schedules.run (step L) init schedule) (t, false) := Schedules.run_append ..
  have hlockedNow : (Schedules.run (step L) init (schedule ++ [(t, false)])).phase u = .locked := by
    rw [hlast, step_phase_of_ne hut, hlocked]
  have howns := hwhole (schedule ++ [(t, false)]) u m' hlockedNow hmu
  rw [hlast, hstep, setPhase_owner, State.letGo, if_neg fun h => hchecks h.1] at howns
  exact absurd howns (by simp)

/-- The lockers coordinate their threads on every schedule exactly when no locker can unlock, after an exception, a
lockable that another has too and that does not check who owns it. -/
theorem coordinated_iff [Fintype Thread] :
    (∀ schedule, Coordinated L (Schedules.run (step L) init schedule)) ↔ L.Sound := by
  constructor
  · exact fun hall => sound_of_whole fun schedule => (hall schedule).whole
  · exact fun hsound schedule => (run_consistent hsound schedule).coordinated hsound

end Exception

end SynchronizedLocker

end Gridnet
