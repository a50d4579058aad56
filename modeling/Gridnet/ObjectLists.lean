import Mathlib.Data.List.Forall2
import Mathlib.Data.List.Infix

/-! Objects of one class in the order of their construction, and pointers to them: a pointer is an index. What a
loop constructs or updates through pointers is told apart from the objects that were there before. -/

namespace ObjectLists

variable {α β γ : Type*}

/-- The address of an object. -/
abbrev Addr := ℕ

/-- A new object goes behind the ones that are there. -/
def construct (objects : List α) (object : α) : List α × Addr := (objects ++ [object], objects.length)

/-- A loop that copies what the pointers point to, one object at a time; `none` for a pointer to no object. -/
def copyAll (objects : List α) : List Addr → Option (List α × List Addr)
  | [] => some (objects, [])
  | ptr :: ptrs => do
      let object ← objects[ptr]?
      let (objects, copy) := construct objects object
      let (objects, copies) ← copyAll objects ptrs
      some (objects, copy :: copies)

/-- A loop that updates what the pointers point to. -/
def modifyAll (f : α → α) (ptrs : List Addr) (objects : List α) : List α :=
  ptrs.foldl (fun objects ptr => objects.modify ptr f) objects

theorem mapM_eq_some_iff {f : α → Option β} {l : List α} {bs : List β} :
    l.mapM f = some bs ↔ List.Forall₂ (fun a b => f a = some b) l bs := by
  induction l generalizing bs with
  | nil =>
      rw [List.mapM_nil, List.forall₂_nil_left_iff]
      exact ⟨fun h => (Option.some.inj h).symm, fun h => congrArg some h.symm⟩
  | cons a l ih =>
      rw [List.mapM_cons, List.forall₂_cons_left_iff]
      constructor
      · intro h
        obtain ⟨b, hb, h⟩ := Option.bind_eq_some_iff.mp h
        obtain ⟨bs, hbs, h⟩ := Option.bind_eq_some_iff.mp h
        exact ⟨b, bs, hb, ih.mp hbs, (Option.some.inj h).symm⟩
      · rintro ⟨b, bs, hb, hbs, rfl⟩
        rw [hb, ih.mpr hbs]
        rfl

/-- What is read in two steps is read in one after the other. -/
theorem forall₂_bind {f : α → Option β} {g : β → Option γ} {l : List α} {cs : List γ}
    (h : List.Forall₂ (fun a c => (f a).bind g = some c) l cs) :
    ∃ bs, List.Forall₂ (fun a b => f a = some b) l bs ∧ List.Forall₂ (fun b c => g b = some c) bs cs := by
  induction h with
  | nil => exact ⟨[], .nil, .nil⟩
  | cons hc _ ih =>
      obtain ⟨b, hb, hc⟩ := Option.bind_eq_some_iff.mp hc
      obtain ⟨bs, hbs, hcs⟩ := ih
      exact ⟨b :: bs, .cons hb hbs, .cons hc hcs⟩

theorem bind_forall₂ {f : α → Option β} {g : β → Option γ} {l : List α} {bs : List β} {cs : List γ}
    (hbs : List.Forall₂ (fun a b => f a = some b) l bs) (hcs : List.Forall₂ (fun b c => g b = some c) bs cs) :
    List.Forall₂ (fun a c => (f a).bind g = some c) l cs := by
  induction hbs generalizing cs with
  | nil =>
      cases hcs
      exact .nil
  | cons hb _ ih =>
      cases hcs with
      | cons hc hcs => exact .cons (Option.bind_eq_some_iff.mpr ⟨_, hb, hc⟩) (ih hcs)

section Pointers

variable {objects later : List α} {ptrs : List Addr} {xs : List α}

/-- What the pointers point to. -/
def Points (objects : List α) (ptrs : List Addr) (xs : List α) : Prop :=
  List.Forall₂ (fun ptr x => objects[ptr]? = some x) ptrs xs

/-- Objects that are constructed later are at other addresses. -/
theorem getElem?_of_isPrefix {ptr : Addr} {x : α} (hearlier : objects <+: later) (hx : objects[ptr]? = some x) :
    later[ptr]? = some x := by
  obtain ⟨new, rfl⟩ := hearlier
  rw [List.getElem?_append_left (List.getElem?_eq_some_iff.mp hx).1]
  exact hx

theorem Points.of_isPrefix (hearlier : objects <+: later) (h : Points objects ptrs xs) : Points later ptrs xs :=
  h.imp fun _ _ => getElem?_of_isPrefix hearlier

/-- The addresses of new objects. -/
def newAddrs (objects xs : List α) : List Addr := List.range' objects.length xs.length

theorem newAddrs_cons (objects : List α) (x : α) (xs : List α) :
    newAddrs objects (x :: xs) = objects.length :: newAddrs (objects ++ [x]) xs := by
  simp [newAddrs, List.range'_succ]

theorem points_newAddrs (objects xs : List α) : Points (objects ++ xs) (newAddrs objects xs) xs := by
  induction xs generalizing objects with
  | nil => exact .nil
  | cons x xs ih =>
      rw [newAddrs_cons, List.append_cons]
      refine .cons ?_ (ih _)
      simp

/-- Copies are new objects that equal the ones they are made from. -/
theorem copyAll_eq (h : Points objects ptrs xs) :
    copyAll objects ptrs = some (objects ++ xs, newAddrs objects xs) := by
  induction ptrs generalizing objects xs with
  | nil =>
      cases h
      simp [copyAll, newAddrs]
  | cons ptr ptrs ih =>
      obtain ⟨x, xs, hx, hxs, rfl⟩ := List.forall₂_cons_left_iff.mp h
      have hcopies := ih (Points.of_isPrefix (List.prefix_append objects [x]) hxs)
      rw [copyAll, hx, newAddrs_cons, List.append_cons]
      simp only [Option.bind_eq_bind, Option.bind_some, construct, hcopies]

/-- An update of all new objects is one of no other object. -/
theorem modifyAll_newAddrs (f : α → α) (objects xs : List α) :
    modifyAll f (newAddrs objects xs) (objects ++ xs) = objects ++ xs.map f := by
  induction xs generalizing objects with
  | nil => simp [modifyAll, newAddrs]
  | cons x xs ih =>
      have hmodify : (objects ++ x :: xs).modify objects.length f = objects ++ [f x] ++ xs := by
        simp [List.modify_eq_take_drop]
      have haddrs : newAddrs (objects ++ [x]) xs = newAddrs (objects ++ [f x]) xs := by
        simp [newAddrs]
      rw [newAddrs_cons, modifyAll, List.foldl_cons, hmodify, haddrs]
      exact (ih (objects ++ [f x])).trans (by simp)

end Pointers
end ObjectLists
