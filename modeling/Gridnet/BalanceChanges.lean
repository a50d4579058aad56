import Gridnet.LedgerModel
import Gridnet.Machine

/-! Changes of a number in the storage of a state domain. A value that is there is checked against what is taken
from it; one that is not there yet is not, and no sum is checked against the 256 bits it is stored in. -/

namespace Gridnet

/-- `mp::int256_t`: a sign and 256 bits of magnitude. -/
abbrev BigSInt := { n : ℤ // n.natAbs < 2 ^ 256 }

/-- A sum of which the magnitude keeps its low bits. -/
def BigSInt.add (a b : BigSInt) : BigSInt where
  val := (a.val + b.val).sign * ((a.val + b.val).natAbs % 2 ^ 256 : ℕ)
  property := by
    rw [Int.natAbs_mul, Int.natAbs_natCast, Int.natAbs_sign]
    have hmod := Nat.mod_lt (a.val + b.val).natAbs (show 2 ^ 256 > 0 by decide)
    split_ifs <;> omega

/-- `static_cast<BigSInt>` -/
def BigSInt.ofBigInt (n : BigInt) : BigSInt := ⟨n.toNat, by rw [Int.natAbs_natCast]; exact n.isLt⟩

/-- `static_cast<BigInt>`: the two's complement of a negative number. -/
def BigSInt.toBigInt (n : BigSInt) : BigInt := BitVec.ofInt 256 n.val

/-- The sum of a stored number and a change, as it is stored. -/
theorem BigSInt.toBigInt_add (a : BigInt) (b : BigSInt) :
    ((BigSInt.ofBigInt a).add b).toBigInt = BitVec.ofInt 256 (a.toNat + b.val) := by
  have hlow : ∀ n : ℕ, BitVec.ofInt 256 (n % 2 ^ 256 : ℕ) = BitVec.ofInt 256 n := by
    intro n
    apply BitVec.eq_of_toNat_eq
    rw [BitVec.ofInt_natCast, BitVec.ofInt_natCast, BitVec.toNat_ofNat, BitVec.toNat_ofNat, Nat.mod_mod]
  have hvalue : ∀ z : ℤ, BitVec.ofInt 256 (z.sign * (z.natAbs % 2 ^ 256 : ℕ)) = BitVec.ofInt 256 z := by
    intro z
    calc BitVec.ofInt 256 (z.sign * (z.natAbs % 2 ^ 256 : ℕ))
        = BitVec.ofInt 256 (z.sign * z.natAbs) := by rw [BitVec.ofInt_mul, hlow, ← BitVec.ofInt_mul]
      _ = BitVec.ofInt 256 z := by rw [Int.sign_mul_natAbs]
  exact hvalue _

namespace Storage

/-- The types of the values in the storage of a domain. -/
inductive eDataType where
  | signedInteger
  | unsignedInteger
  | booll
  | charr
  | doublee
  | bytes
  | pointer
  | noData
  | directory
  | BigInt
  | BigSInt
  | BigDouble
  deriving DecidableEq, Repr

end Storage

/-- The storage of a domain, whose code is not at hand, under the token of the system: values with their types, and
writes of a `BigInt`, which may be rejected. -/
structure DomainStorage (σ : Type*) where
  loadValue : σ → Bytes → Storage.eDataType × Bytes
  saveValue : σ → Bytes → Bytes → Bool × σ
  loadValue_saved : ∀ {s key value}, (saveValue s key value).1 = true →
    loadValue (saveValue s key value).2 key = (.BigInt, value)
  loadValue_rejected : ∀ {s key value}, (saveValue s key value).1 = false →
    loadValue (saveValue s key value).2 key = loadValue s key

namespace DomainStorage

variable {σ : Type*} (S : DomainStorage σ)

/-- `changeValueBy`. Where there is no value the guard is about the zero it starts from, so that it never throws. -/
def changeValueBy (key : Bytes) (s : σ) (modBy : BigSInt) : Bool × σ :=
  let (type, dataVec) := S.loadValue s key
  let currentVal : BigInt := 0
  match type with
  | .BigInt =>
      let currentVal : BigInt := .ofNat 256 (BytesToBigInt dataVec)
      if modBy.val < 0 ∧ (BigSInt.ofBigInt currentVal).val * -1 > modBy.val then (false, s)
      else S.saveValue s key (BigIntToBytes ((BigSInt.ofBigInt currentVal).add modBy).toBigInt.toNat)
  | .noData => S.saveValue s key (BigIntToBytes ((BigSInt.ofBigInt currentVal).add modBy).toBigInt.toNat)
  | _ => (false, s)

/-- The number under a key, zero where nothing is stored; `none` where something else is. -/
def stored (key : Bytes) (s : σ) : Option ℕ :=
  match S.loadValue s key with
  | (.BigInt, dataVec) => some (BitVec.ofNat 256 (BytesToBigInt dataVec)).toNat
  | (.noData, _) => some 0
  | _ => none

/-- The store rejects what would be written for a new number. -/
def Rejects (key : Bytes) (s : σ) (new : ℤ) : Prop :=
  (S.saveValue s key (BigIntToBytes (BitVec.ofInt 256 new).toNat)).1 = false

/-- What a change has to do: it is made exactly and reported, or reported as refused and not made; it is refused
exactly if there would be less than nothing, if there is no number, or if the store rejects it. -/
structure Exact (key : Bytes) (s : σ) (modBy : BigSInt) : Prop where
  made : (S.changeValueBy key s modBy).1 = true → ∃ old new : ℕ, S.stored key s = some old ∧
    (S.loadValue (S.changeValueBy key s modBy).2 key).1 = .BigInt ∧
    S.stored key (S.changeValueBy key s modBy).2 = some new ∧ (new : ℤ) = old + modBy.val
  refused : (S.changeValueBy key s modBy).1 = false →
    S.loadValue (S.changeValueBy key s modBy).2 key = S.loadValue s key
  refused_iff : (S.changeValueBy key s modBy).1 = false ↔
    ∀ old, S.stored key s = some old → old + modBy.val < 0 ∨ S.Rejects key s (old + modBy.val)

/-- The new number is one of 256 bits, and not less than nothing where nothing was stored; or the store rejects it. -/
def Representable (key : Bytes) (s : σ) (modBy : BigSInt) : Prop :=
  ∀ old, S.stored key s = some old → old + modBy.val < 2 ^ 256 ∧
      (0 ≤ modBy.val ∨ (S.loadValue s key).1 = .BigInt) ∨ S.Rejects key s (old + modBy.val)

/-- The amount a change adds to a balance where it is accepted. -/
def accepted (modBy : BigSInt) (made : Bool) : ℤ := if made then modBy.val else 0

def balance (key : Bytes) (s : σ) : ℤ := (S.stored key s).getD 0

variable {S} {key : Bytes} {s : σ} {modBy : BigSInt}

theorem stored_of_bigInt (htype : (S.loadValue s key).1 = .BigInt) :
    S.stored key s = some (BitVec.ofNat 256 (BytesToBigInt (S.loadValue s key).2)).toNat := by
  unfold stored
  split
  next type dataVec hload => rw [hload]
  next hload => cases hload ▸ htype
  next hnotBigInt _ => exact (hnotBigInt _ (Prod.ext htype rfl)).elim

/-- A value that was stored, or nothing. -/
theorem type_of_stored {old : ℕ} (hold : S.stored key s = some old) :
    (S.loadValue s key).1 = .BigInt ∨ (S.loadValue s key).1 = .noData ∧ old = 0 := by
  unfold stored at hold
  split at hold
  next dataVec hload => exact .inl (congrArg Prod.fst hload)
  next dataVec hload => exact .inr ⟨congrArg Prod.fst hload, (Option.some.inj hold).symm⟩
  next => cases hold

/-- What a change is where a number is stored, or nothing. -/
theorem changeValueBy_of_stored {old : ℕ} (hold : S.stored key s = some old) :
    S.changeValueBy key s modBy =
      if (S.loadValue s key).1 = .BigInt ∧ old + modBy.val < 0 then (false, s)
      else S.saveValue s key (BigIntToBytes (BitVec.ofInt 256 (old + modBy.val)).toNat) := by
  unfold changeValueBy
  rcases type_of_stored hold with htype | ⟨htype, rfl⟩
  · rw [stored_of_bigInt htype] at hold
    obtain rfl := Option.some.inj hold
    simp only [htype, true_and, BigSInt.toBigInt_add]
    have hguard : (modBy.val < 0 ∧
        (BigSInt.ofBigInt (BitVec.ofNat 256 (BytesToBigInt (S.loadValue s key).2))).val * -1 > modBy.val) ↔
        ((BitVec.ofNat 256 (BytesToBigInt (S.loadValue s key).2)).toNat : ℤ) + modBy.val < 0 := by
      unfold BigSInt.ofBigInt
      dsimp only
      omega
    simp only [hguard]
  · simp only [htype, reduceCtorEq, false_and, if_false, BigSInt.toBigInt_add]
    rfl

theorem changeValueBy_of_not_stored (hnone : S.stored key s = none) : S.changeValueBy key s modBy = (false, s) := by
  unfold stored at hnone
  unfold changeValueBy
  split at hnone
  next => cases hnone
  next => cases hnone
  next hnotBigInt hnotNoData =>
    generalize hload : S.loadValue s key = loaded at hnotBigInt hnotNoData
    obtain ⟨type, dataVec⟩ := loaded
    cases type <;> first | rfl | exact absurd rfl (hnotBigInt _) | exact absurd rfl (hnotNoData _)

/-- The number that was written is the sum exactly if 256 bits hold it. -/
theorem toNat_ofInt_eq_iff (z : ℤ) : ((BitVec.ofInt 256 z).toNat : ℤ) = z ↔ 0 ≤ z ∧ z < 2 ^ 256 := by
  rw [BitVec.toNat_ofInt]
  have hnonneg := Int.emod_nonneg z (show ((2 ^ 256 : ℕ) : ℤ) ≠ 0 by decide)
  rw [Int.toNat_of_nonneg hnonneg]
  constructor
  · intro heq
    have hlt := Int.emod_lt_of_pos z (show (0 : ℤ) < ((2 ^ 256 : ℕ) : ℤ) by decide)
    rw [heq] at hnonneg hlt
    exact ⟨hnonneg, hlt⟩
  · rintro ⟨hnonneg, hlt⟩
    exact Int.emod_eq_of_lt hnonneg hlt

/-- A write that is accepted stores the number that was written. -/
theorem stored_saved {n : BigInt} (hsaved : (S.saveValue s key (BigIntToBytes n.toNat)).1 = true) :
    (S.loadValue (S.saveValue s key (BigIntToBytes n.toNat)).2 key).1 = .BigInt ∧
      S.stored key (S.saveValue s key (BigIntToBytes n.toNat)).2 = some n.toNat := by
  have hload := S.loadValue_saved hsaved
  have htype := congrArg Prod.fst hload
  refine ⟨htype, ?_⟩
  rw [stored_of_bigInt htype, hload, BytesToBigInt_BigIntToBytes, BitVec.ofNat_toNat, BitVec.setWidth_eq]

/-- A change that is refused for one of the reasons there are. -/
theorem exact_of_refused (hresult : (S.changeValueBy key s modBy).1 = false)
    (hload : S.loadValue (S.changeValueBy key s modBy).2 key = S.loadValue s key)
    (hwhy : ∀ old, S.stored key s = some old → old + modBy.val < 0 ∨ S.Rejects key s (old + modBy.val)) :
    S.Exact key s modBy := by
  refine ⟨?_, fun _ => hload, iff_of_true hresult hwhy⟩
  rw [hresult]
  nofun

/-- A change that is made is exact exactly if 256 bits hold the new number. -/
theorem exact_iff_of_made {old : ℕ} (hold : S.stored key s = some old)
    (hcall : S.changeValueBy key s modBy =
      S.saveValue s key (BigIntToBytes (BitVec.ofInt 256 (old + modBy.val)).toNat))
    (hresult : (S.changeValueBy key s modBy).1 = true) :
    S.Exact key s modBy ↔ 0 ≤ old + modBy.val ∧ old + modBy.val < 2 ^ 256 := by
  have hsaved := hresult
  rw [hcall] at hsaved
  obtain ⟨htype, hstored⟩ := stored_saved hsaved
  rw [← hcall] at htype hstored
  rw [← toNat_ofInt_eq_iff]
  constructor
  · intro hexact
    obtain ⟨_, new, hsome, -, hnew, hsum⟩ := hexact.made hresult
    obtain rfl := Option.some.inj (hold.symm.trans hsome)
    obtain rfl := Option.some.inj (hstored.symm.trans hnew)
    exact hsum
  · intro hsum
    refine ⟨fun _ => ⟨old, _, hold, htype, hstored, hsum⟩, ?_, ?_⟩
    · rw [hresult]
      nofun
    · rw [hresult, hold]
      refine iff_of_false nofun ?_
      intro hwhy
      rcases hwhy old rfl with hnegative | hrejects
      · have hnonneg := ((toNat_ofInt_eq_iff _).mp hsum).1
        omega
      · unfold Rejects at hrejects
        rw [hsaved] at hrejects
        cases hrejects

/-- A change is exact exactly if the new number is representable. -/
theorem exact_iff : S.Exact key s modBy ↔ S.Representable key s modBy := by
  cases hold : S.stored key s with
  | none =>
      have hcall : S.changeValueBy key s modBy = (false, s) := changeValueBy_of_not_stored hold
      have hnone : ∀ {P : ℕ → Prop} old, S.stored key s = some old → P old := by
        intro P old hsome
        rw [hold] at hsome
        cases hsome
      refine iff_of_true (exact_of_refused ?_ ?_ hnone) hnone
      · rw [hcall]
      · rw [hcall]
  | some old =>
      have hcall : S.changeValueBy key s modBy = _ := changeValueBy_of_stored hold
      have hrepresentable : S.Representable key s modBy ↔ old + modBy.val < 2 ^ 256 ∧
          (0 ≤ modBy.val ∨ (S.loadValue s key).1 = .BigInt) ∨ S.Rejects key s (old + modBy.val) := by
        unfold Representable
        rw [hold]
        exact ⟨fun hall => hall old rfl, fun hthis _ hsome => Option.some.inj hsome ▸ hthis⟩
      rw [hrepresentable]
      by_cases hguard : (S.loadValue s key).1 = .BigInt ∧ old + modBy.val < 0
      · rw [if_pos hguard] at hcall
        refine iff_of_true (exact_of_refused ?_ ?_ ?_) (.inl ⟨by omega, .inr hguard.1⟩)
        · rw [hcall]
        · rw [hcall]
        · rw [hold]
          rintro _ ⟨rfl⟩
          exact .inl hguard.2
      · rw [if_neg hguard] at hcall
        cases hresult : (S.changeValueBy key s modBy).1 with
        | false =>
            have hrejects : S.Rejects key s (old + modBy.val) := by
              rw [hcall] at hresult
              exact hresult
            refine iff_of_true (exact_of_refused hresult ?_ ?_) (.inr hrejects)
            · rw [hcall]
              exact S.loadValue_rejected hrejects
            · rw [hold]
              rintro _ ⟨rfl⟩
              exact .inr hrejects
        | true =>
            have hnotRejects : ¬ S.Rejects key s (old + modBy.val) := by
              unfold Rejects
              rw [← hcall, hresult]
              nofun
            rw [exact_iff_of_made hold hcall hresult, or_iff_left hnotRejects]
            rcases type_of_stored hold with htype | ⟨htype, rfl⟩
            · have hnonneg : 0 ≤ old + modBy.val := not_lt.mp fun hnegative => hguard ⟨htype, hnegative⟩
              rw [htype]
              exact ⟨fun h => ⟨h.2, .inr rfl⟩, fun h => ⟨hnonneg, h.1⟩⟩
            · rw [htype]
              simp only [reduceCtorEq, or_false, Nat.cast_zero, zero_add]
              exact and_comm

/-! ### Sequences of changes -/

/-- A change that is exact moves the balance by what it reports. -/
theorem Exact.balance_eq (hexact : S.Exact key s modBy) :
    S.balance key (S.changeValueBy key s modBy).2 =
      S.balance key s + accepted modBy (S.changeValueBy key s modBy).1 := by
  unfold balance accepted
  cases hresult : (S.changeValueBy key s modBy).1 with
  | true =>
      obtain ⟨old, new, hold, -, hnew, hsum⟩ := hexact.made hresult
      rw [hold, hnew]
      exact hsum
  | false =>
      have hload := hexact.refused hresult
      unfold stored
      rw [hload]
      exact (add_zero _).symm

variable (S key) in
/-- All changes of a sequence are exact, and the balance grows by the accepted amounts and is never negative. -/
def KeepsBalance (s : σ) (amounts : List BigSInt) : Prop :=
  Machine.EveryStep (S.changeValueBy key) (fun s modBy => S.Exact key s modBy ∧ 0 ≤ S.balance key s) s amounts ∧
    S.balance key (Machine.final (S.changeValueBy key) s amounts) =
      S.balance key s + Machine.total (S.changeValueBy key) accepted s amounts

/-- Changes keep the balance exactly if every new number is representable. -/
theorem keepsBalance_iff (S : DomainStorage σ) (key : Bytes) (s : σ) (amounts : List BigSInt) :
    S.KeepsBalance key s amounts ↔
      Machine.EveryStep (S.changeValueBy key) (S.Representable key) s amounts := by
  have hsame : ∀ (s : σ) modBy, True →
      (S.Exact key s modBy ∧ 0 ≤ S.balance key s ↔ S.Representable key s modBy) := by
    intro s modBy _
    rw [exact_iff]
    exact and_iff_left (Int.natCast_nonneg _)
  rw [← Machine.everyStep_iff_of_invariant hsame (fun _ _ _ _ => trivial) trivial amounts]
  apply and_iff_left_of_imp
  intro hexact
  have hstep : ∀ (s : σ) modBy, True → S.Exact key s modBy ∧ 0 ≤ S.balance key s →
      S.balance key (S.changeValueBy key s modBy).2 =
        S.balance key s + accepted modBy (S.changeValueBy key s modBy).1 ∧ True := by
    intro s modBy _ hexact
    exact ⟨hexact.1.balance_eq, trivial⟩
  exact Machine.potential_final accepted (S.balance key) hstep trivial hexact

/-! ### A balance that is not there yet -/

/-- Values in memory, which accept every write. -/
def inMemory : DomainStorage (Bytes → Option (Storage.eDataType × Bytes)) where
  loadValue s key := (s key).getD (.noData, [])
  saveValue s key value := (true, Function.update s key (some (.BigInt, value)))
  loadValue_saved := by
    intro s key value _
    show (Function.update s key (some (Storage.eDataType.BigInt, value)) key).getD _ = _
    rw [Function.update_self]
    rfl
  loadValue_rejected := nofun

/-- What is taken from a balance that is not there yet is what it becomes in two's complement. -/
theorem new_balance_wraps : ¬ ∀ s amounts, inMemory.KeepsBalance [] s amounts := by
  intro hkeeps
  have hrepresentable := ((keepsBalance_iff inMemory [] (fun _ => none) [⟨-1, by decide⟩]).mp (hkeeps _ _)).1
  rcases hrepresentable 0 rfl with ⟨-, hpositive | htype⟩ | hrejects
  · exact absurd hpositive (by decide)
  · cases htype
  · cases hrejects

end DomainStorage

end Gridnet
