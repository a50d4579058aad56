import Mathlib.Data.List.Basic
import Mathlib.Tactic.Common
import Gridnet.Bytes

/-! The registered domain instances of a flow. `unregisterDomain` erases them by index while it goes over
them, and passes over the second one where it has erased the first. -/

namespace Gridnet

variable {Domain : Type} (getAddress : Domain → Bytes)

/-! ### The loop -/

/-- The comparison of the loop: over the common size as 32 bits, and never over nothing. -/
def comparesEqual (ID address : Bytes) : Bool :=
  let size := min ID.length address.length % 2 ^ 32
  decide (size ≠ 0) && decide (address.take size = ID.take size)

def unregisterLoop (ID : Bytes) (i : ℕ) (instances : List Domain) (didIt : Bool) : Bool × List Domain :=
  if hi : i < instances.length then
    if comparesEqual ID (getAddress instances[i]) then
      unregisterLoop ID ((if 0 < i then i - 1 else i) + 1) (instances.eraseIdx i) true
    else unregisterLoop ID (i + 1) instances didIt
  else (didIt, instances)
termination_by instances.length - i
decreasing_by
  · rw [List.length_eraseIdx_of_lt hi]
    split <;> omega
  · omega

def unregisterDomain (ID : Bytes) (mInFlowDomainInstances : List Domain) : Bool × List Domain :=
  if ID.length < 32 then (false, mInFlowDomainInstances)
  else unregisterLoop getAddress ID 0 mInFlowDomainInstances false

/-! ### What it leaves -/

section

variable {getAddress} {ID : Bytes}

theorem unregisterLoop_end (ID : Bytes) (instances : List Domain) (didIt : Bool) :
    unregisterLoop getAddress ID instances.length instances didIt = (didIt, instances) := by
  rw [unregisterLoop, dif_neg (lt_irrefl _)]

/-- One turn, at the first instance of `rest`. -/
theorem unregisterLoop_cons (front rest : List Domain) (d : Domain) (didIt : Bool) :
    unregisterLoop getAddress ID front.length (front ++ d :: rest) didIt =
      if comparesEqual ID (getAddress d) then
        unregisterLoop getAddress ID ((if 0 < front.length then front.length - 1 else front.length) + 1)
          (front ++ rest) true
      else unregisterLoop getAddress ID (front ++ [d]).length (front ++ [d] ++ rest) didIt := by
  rw [unregisterLoop, dif_pos (by simp), List.eraseIdx_append_of_length_le le_rfl]
  simp

/-- Behind the first instance the loop erases every one that compares equal. -/
theorem unregisterLoop_behind (front rest : List Domain) (didIt : Bool) (hfront : front ≠ []) :
    unregisterLoop getAddress ID front.length (front ++ rest) didIt =
      (didIt || rest.any fun d => comparesEqual ID (getAddress d),
        front ++ rest.filter fun d => !comparesEqual ID (getAddress d)) := by
  induction rest generalizing front didIt with
  | nil =>
      rw [List.append_nil, unregisterLoop_end]
      simp
  | cons d rest ih =>
      have hpos : 0 < front.length := List.length_pos_iff.mpr hfront
      rw [unregisterLoop_cons]
      cases hequal : comparesEqual ID (getAddress d) with
      | true =>
          rw [if_pos rfl, if_pos hpos, Nat.sub_add_cancel hpos, ih front true hfront]
          simp [hequal]
      | false =>
          rw [if_neg Bool.false_ne_true, ih (front ++ [d]) didIt (by simp)]
          simp [hequal]

/-- The instance behind an erased first one is passed over. -/
def leftOf (equal : Domain → Bool) : List Domain → List Domain
  | first :: second :: rest =>
      if equal first then second :: rest.filter fun d => !equal d
      else first :: (second :: rest).filter fun d => !equal d
  | instances => instances.filter fun d => !equal d

/-- Nothing else is passed over. -/
theorem leftOf_eq_filter {equal : Domain → Bool} {instances : List Domain}
    (hboth : ∀ first second rest, instances = first :: second :: rest → (equal first && equal second) = false) :
    leftOf equal instances = instances.filter fun d => !equal d := by
  rcases instances with _ | ⟨first, _ | ⟨second, rest⟩⟩
  · rfl
  · rfl
  · have hnot := hboth first second rest rfl
    cases hfirst : equal first <;> simp_all [leftOf]

/-- An instance is gone exactly where one compares equal. -/
theorem length_leftOf_lt (equal : Domain → Bool) (instances : List Domain) :
    (leftOf equal instances).length < instances.length ↔ instances.any equal = true := by
  by_cases hboth : ∃ first second rest, instances = first :: second :: rest ∧ equal first = true ∧ equal second = true
  · obtain ⟨first, second, rest, rfl, hfirst, hsecond⟩ := hboth
    have hle := List.length_filter_le (fun d => !equal d) rest
    simp only [leftOf, hfirst, if_true, List.length_cons, List.any_cons, Bool.true_or, iff_true]
    omega
  · rw [leftOf_eq_filter, List.length_filter_lt_length_iff_exists]
    · simp
    · intro first second rest heq
      by_contra hequal
      rw [Bool.not_eq_false, Bool.and_eq_true] at hequal
      exact hboth ⟨first, second, rest, heq, hequal⟩

theorem unregisterDomain_eq (hID : 32 ≤ ID.length) (instances : List Domain) :
    unregisterDomain getAddress ID instances =
      (instances.any fun d => comparesEqual ID (getAddress d),
        leftOf (fun d => comparesEqual ID (getAddress d)) instances) := by
  unfold unregisterDomain
  rw [if_neg (Nat.not_lt.mpr hID)]
  cases instances with
  | nil => exact unregisterLoop_end ID [] false
  | cons first rest =>
      refine (unregisterLoop_cons [] rest first false).trans ?_
      cases hequal : comparesEqual ID (getAddress first) with
      | true =>
          cases rest with
          | nil =>
              rw [if_pos rfl, unregisterLoop]
              simp [leftOf, hequal]
          | cons second rest =>
              refine (if_pos rfl).trans ((unregisterLoop_behind [second] rest true (by simp)).trans ?_)
              simp [leftOf, hequal]
      | false =>
          refine (if_neg Bool.false_ne_true).trans ((unregisterLoop_behind [first] rest false (by simp)).trans ?_)
          cases rest <;> simp [leftOf, hequal]

end

/-! ### Complete removal -/

/-- The address and the ID agree on their common prefix. -/
def agrees (ID address : Bytes) : Bool :=
  decide (address.take (min ID.length address.length) = ID.take (min ID.length address.length))

/-- What agrees is gone, the rest stays in order, and the result is true exactly where something is gone. -/
def Unregistered (ID : Bytes) (instances : List Domain) : Prop :=
  (unregisterDomain getAddress ID instances).2 = (instances.filter fun d => !agrees ID (getAddress d)) ∧
    ((unregisterDomain getAddress ID instances).1 = true ↔
      (unregisterDomain getAddress ID instances).2.length < instances.length)

/-- The loop's comparison says whether the address agrees. -/
def Judged (ID address : Bytes) : Prop := comparesEqual ID address = agrees ID address

/-- Every comparison is right; where the first two compare equal, the second must not agree. -/
def Removable (ID : Bytes) : List Domain → Prop
  | first :: second :: rest =>
      if comparesEqual ID (getAddress first) && comparesEqual ID (getAddress second) then
        agrees ID (getAddress first) = true ∧ agrees ID (getAddress second) = false ∧
          ∀ d ∈ rest, Judged ID (getAddress d)
      else ∀ d ∈ first :: second :: rest, Judged ID (getAddress d)
  | instances => ∀ d ∈ instances, Judged ID (getAddress d)

variable {getAddress} {ID : Bytes}

theorem filter_eq_filter_iff {p q : Domain → Bool} {l : List Domain} :
    l.filter p = l.filter q ↔ ∀ d ∈ l, p d = q d := by
  constructor
  · intro heq d hd
    have hmem : d ∈ l.filter p ↔ d ∈ l.filter q := by rw [heq]
    rw [List.mem_filter, List.mem_filter, and_iff_right hd, and_iff_right hd] at hmem
    exact Bool.eq_iff_iff.mpr hmem
  · exact List.filter_congr

theorem filter_judged_iff {instances : List Domain} :
    (instances.filter fun d => !comparesEqual ID (getAddress d)) =
        (instances.filter fun d => !agrees ID (getAddress d)) ↔
      ∀ d ∈ instances, Judged ID (getAddress d) := by
  simp [filter_eq_filter_iff, Judged]

theorem leftOf_eq_iff (instances : List Domain) :
    leftOf (fun d => comparesEqual ID (getAddress d)) instances =
        (instances.filter fun d => !agrees ID (getAddress d)) ↔
      Removable getAddress ID instances := by
  rcases instances with _ | ⟨first, _ | ⟨second, rest⟩⟩
  · exact filter_judged_iff
  · exact filter_judged_iff
  cases hboth : comparesEqual ID (getAddress first) && comparesEqual ID (getAddress second) with
  | false =>
      rw [leftOf_eq_filter, filter_judged_iff, Removable, hboth, if_neg Bool.false_ne_true]
      rintro _ _ _ ⟨⟩
      exact hboth
  | true =>
      rw [Removable, hboth, if_pos rfl, ← filter_judged_iff]
      rw [Bool.and_eq_true] at hboth
      simp only [leftOf, hboth.1, if_true]
      constructor
      · intro heq
        have hsecond : agrees ID (getAddress second) = false := by
          have hmem := heq ▸ List.mem_cons_self
          simpa using (List.mem_filter.mp hmem).2
        cases hfirst : agrees ID (getAddress first) with
        | true => simpa [hfirst, hsecond] using heq
        | false =>
            -- the first instance were to stay as well, so the second one would come once more
            simp only [List.filter_cons, hfirst, hsecond, Bool.not_false, if_true, List.cons.injEq] at heq
            have hmem : second ∈ rest.filter fun d => !comparesEqual ID (getAddress d) := by
              rw [heq.2]
              exact List.mem_cons_self
            rw [List.mem_filter, hboth.2] at hmem
            exact absurd hmem.2 (by simp)
      · rintro ⟨hfirst, hsecond, hrest⟩
        simp [hfirst, hsecond, hrest]

theorem unregistered_iff_removable (getAddress : Domain → Bytes) {ID : Bytes} (hID : 32 ≤ ID.length)
    (instances : List Domain) :
    Unregistered getAddress ID instances ↔ Removable getAddress ID instances := by
  unfold Unregistered
  rw [unregisterDomain_eq hID, ← leftOf_eq_iff]
  exact and_iff_left (length_leftOf_lt _ _).symm

theorem single_instance_unregistered : Unregistered id (List.replicate 32 1) [[1, 1], [2], [1]] :=
  (unregistered_iff_removable id (by decide) _).mpr (by simp [Removable, Judged, comparesEqual, agrees])

/-- Two instances of one domain, registered first. -/
theorem second_instance_stays :
    ¬ Unregistered id (List.replicate 34 7) [List.replicate 34 7, List.replicate 34 7] := by
  rw [Unregistered, unregisterDomain_eq (by decide)]
  decide

end Gridnet
