import Mathlib.Data.UInt
import Gridnet.Bytes

/-! The locked assets of a state domain: two variables of its storage, the key height up to which they
are locked and their amount, shared by `getLockedAssets`, `incLockedAssets` and `setLockedAssets`. -/

namespace Gridnet

/-- The types of `eDataType` under which the two variables are stored. -/
inductive eDataType where
  | unsignedInteger
  | noData
  | BigInt
  deriving DecidableEq, Repr

/-- How `CDataTrieDB::saveValue` writes the two kinds of numbers and how `CTools::BytesToBigInt` reads
bytes; their code is not at hand. -/
structure ValueCodec where
  saveInteger : UInt64 → Bytes
  saveBigInt : BigInt → Bytes
  BytesToBigInt : Bytes → BigInt

namespace ValueCodec

/-- The little-endian number that `memcpy` leaves in a zeroed `uint64_t`; more than eight bytes fail
the assertion before it. -/
def copyInteger (b : Bytes) : Option UInt64 :=
  if b.length ≤ 8 then
    some (.ofNat (Nat.ofDigits 256 (b.map UInt8.toNat)))
  else none

/-- A loaded amount: a variable without bytes counts as zero. -/
def readAmount (V : ValueCodec) (b : Bytes) : BigInt :=
  if b = [] then 0 else V.BytesToBigInt b

/-- What the three functions rely on: each kind of number is read back by its own reader, and a zero
that was saved as an integer is zero to the other reader too. -/
structure Documented (V : ValueCodec) : Prop where
  copyInteger_saveInteger : ∀ n, copyInteger (V.saveInteger n) = some n
  readAmount_saveBigInt : ∀ n, V.readAmount (V.saveBigInt n) = n
  readAmount_zero : V.readAmount (V.saveInteger 0) = 0

end ValueCodec

/-- A stored variable with its type; `none` is a variable that was never saved. -/
abbrev StoredValue := Option (eDataType × Bytes)

def loadValue (v : StoredValue) : eDataType × Bytes := v.getD (.noData, [])

/-- The part of the storage of a `CStateDomain` that holds its locked assets. -/
structure CStateDomain where
  lockedGNCTillBlockHeight : StoredValue := none
  lockedGNCValue : StoredValue := none

/-- How a call can end early: at an `assertGN`, or with a thrown text. -/
inductive LockFault where
  | assertion
  | thrown (text : String)
  deriving DecidableEq, Repr

namespace CStateDomain

variable (V : ValueCodec)

/-- The lock height as all three functions load it. -/
def lockedTill (d : CStateDomain) : Except LockFault UInt64 :=
  match ValueCodec.copyInteger (loadValue d.lockedGNCTillBlockHeight).2 with
  | none => .error .assertion
  | some n => .ok n

/-- `getLockedAssets`: the amount, and whether it was just released. -/
def getLockedAssets (d : CStateDomain) (fromKBHPerspective : UInt64) :
    Except LockFault (BigInt × Bool) :=
  match d.lockedTill with
  | .error e => .error e
  | .ok lockedTillBlockHeight =>
      if lockedTillBlockHeight < fromKBHPerspective then .ok (0, true)
      else
        let (vt, byteVector) := loadValue d.lockedGNCValue
        if vt ≠ .noData ∧ vt ≠ .BigInt then
          .error (.thrown "Invalid data type or currency variable.")
        else .ok (V.readAmount byteVector, false)

/-- The last part of both writers: the lock height only ever rises. -/
def raiseLock (d : CStateDomain) (lockedTillKeyBlockHeight tillBlockHeight : UInt64) : CStateDomain :=
  if lockedTillKeyBlockHeight < tillBlockHeight then
    { d with
      lockedGNCTillBlockHeight := some (.unsignedInteger, V.saveInteger tillBlockHeight) }
  else d

/-- The first part of `incLockedAssets`: the amount of an expired lock is reset. -/
def resetExpired (d : CStateDomain) (lockedTillKeyBlockHeight fromKBHPerspective : UInt64) :
    CStateDomain :=
  if lockedTillKeyBlockHeight < fromKBHPerspective then
    { d with lockedGNCValue := some (.unsignedInteger, V.saveInteger 0) }
  else d

/-- `incLockedAssets`, every save succeeding. -/
def incLockedAssets (d : CStateDomain) (fromKBHPerspective : UInt64) (value : BigInt)
    (tillBlockHeight : UInt64) : Except LockFault CStateDomain :=
  match d.lockedTill with
  | .error e => .error e
  | .ok lockedTillKeyBlockHeight =>
      let d := resetExpired V d lockedTillKeyBlockHeight fromKBHPerspective
      let byteVector := (loadValue d.lockedGNCValue).2
      if 256 < byteVector.length then .error .assertion
      else
        let lockedAssets := V.readAmount byteVector + value
        let d := { d with lockedGNCValue := some (.BigInt, V.saveBigInt lockedAssets) }
        .ok (raiseLock V d lockedTillKeyBlockHeight tillBlockHeight)

/-- `setLockedAssets`, every save succeeding: the amount is saved as an integer. -/
def setLockedAssets (d : CStateDomain) (value : UInt64) (tillBlockHeight : UInt64) :
    Except LockFault CStateDomain :=
  match d.lockedTill with
  | .error e => .error e
  | .ok lockedTillKeyBlockHeight =>
      if 8 < (loadValue d.lockedGNCValue).2.length then .error .assertion
      else
        let d := { d with lockedGNCValue := some (.unsignedInteger, V.saveInteger value) }
        .ok (raiseLock V d lockedTillKeyBlockHeight tillBlockHeight)

end CStateDomain

/-- A call that changes the locked assets. -/
inductive LockOp where
  | incLockedAssets (fromKBHPerspective : UInt64) (value : BigInt) (tillBlockHeight : UInt64)
  | setLockedAssets (value : UInt64) (tillBlockHeight : UInt64)

namespace LockOp

def tillBlockHeight : LockOp → UInt64
  | incLockedAssets _ _ till => till
  | setLockedAssets _ till => till

def isSet : LockOp → Bool
  | incLockedAssets _ _ _ => false
  | setLockedAssets _ _ => true

def apply (V : ValueCodec) (d : CStateDomain) : LockOp → Except LockFault CStateDomain
  | incLockedAssets fromKBH value till => d.incLockedAssets V fromKBH value till
  | setLockedAssets value till => d.setLockedAssets V value till

/-- The calls on a domain one after another; a run that ends in an error has a call that failed. -/
def run (V : ValueCodec) : CStateDomain → List LockOp → Except LockFault CStateDomain
  | d, [] => .ok d
  | d, op :: ops =>
      match op.apply V d with
      | .error e => .error e
      | .ok d => run V d ops

end LockOp

/-- What the calls are documented to keep: the height up to which assets are locked and their amount,
a number without a bound. -/
structure Lock where
  height : UInt64 := 0
  amount : ℕ := 0

def Lock.after (l : Lock) : LockOp → Lock
  | .incLockedAssets fromKBH value till =>
      ⟨max l.height till, (if l.height < fromKBH then 0 else l.amount) + value.toNat⟩
  | .setLockedAssets value till => ⟨max l.height till, value.toNat⟩

/-- The lock that a history of calls asks for. -/
def Lock.of (ops : List LockOp) : Lock := ops.foldl Lock.after {}

/-- The amount as the stored bytes carry it: 256 bits wide, and after `setLockedAssets` whatever the
other reader makes of an integer. -/
structure Carried where
  lock : Lock := {}
  assets : BigInt := 0
  asInteger : Bool := false

def Carried.after (V : ValueCodec) (c : Carried) (op : LockOp) : Carried where
  lock := c.lock.after op
  assets :=
    match op with
    | .incLockedAssets fromKBH value _ => (if c.lock.height < fromKBH then 0 else c.assets) + value
    | .setLockedAssets value _ => V.readAmount (V.saveInteger value)
  asInteger := op.isSet

def Carried.of (V : ValueCodec) (ops : List LockOp) : Carried := ops.foldl (Carried.after V) {}

/-- The documented law of a domain after a history: the stored height is the greatest one asked for,
below it the whole amount is locked, and at it everything is unlocked. -/
structure CStateDomain.KeepsLock (V : ValueCodec) (d : CStateDomain) (ops : List LockOp) : Prop where
  height : d.lockedTill = .ok (ops.foldl (fun l op => max l op.tillBlockHeight) 0)
  locked : ∀ h, h < (Lock.of ops).height →
    ∃ assets : BigInt, d.getLockedAssets V h = .ok (assets, false) ∧ assets.toNat = (Lock.of ops).amount
  released : ∀ h, (Lock.of ops).height ≤ h →
    ∃ justReleased, d.getLockedAssets V h = .ok (0, justReleased)

theorem max_eq_ite (a b : UInt64) : max a b = if a < b then b else a := by
  rw [UInt64.max_def]
  split_ifs with hle hlt hlt
  · rfl
  · exact UInt64.le_antisymm (UInt64.not_lt.mp hlt) hle
  · exact absurd (UInt64.le_of_lt hlt) hle
  · rfl

/-- What a domain holds of a history: its height, and the amount under the type of the last call. -/
structure CStateDomain.Holds (V : ValueCodec) (d : CStateDomain) (c : Carried) : Prop where
  height : d.lockedTill = .ok c.lock.height
  type : (loadValue d.lockedGNCValue).1 = .unsignedInteger ↔ c.asInteger = true
  assets : V.readAmount (loadValue d.lockedGNCValue).2 = c.assets

namespace CStateDomain

variable {V : ValueCodec} {d : CStateDomain} {c : Carried}

theorem lockedTill_raiseLock (hdoc : V.Documented) {height : UInt64} (till : UInt64)
    (hheight : d.lockedTill = .ok height) :
    (raiseLock V d height till).lockedTill = .ok (max height till) := by
  rw [raiseLock, max_eq_ite]
  split_ifs with hlt
  · rw [lockedTill, loadValue, Option.getD_some, hdoc.copyInteger_saveInteger]
  · exact hheight

@[simp] theorem lockedGNCValue_raiseLock (V : ValueCodec) (d : CStateDomain)
    (height till : UInt64) : (raiseLock V d height till).lockedGNCValue = d.lockedGNCValue := by
  rw [raiseLock]
  split_ifs <;> rfl

theorem holds_empty (V : ValueCodec) : ({} : CStateDomain).Holds V {} where
  height := rfl
  type := by decide
  assets := rfl

theorem lockedTill_resetExpired (V : ValueCodec) (d : CStateDomain) (height fromKBH : UInt64) :
    (resetExpired V d height fromKBH).lockedTill = d.lockedTill := by
  rw [resetExpired]
  split_ifs <;> rfl

theorem readAmount_resetExpired (hdoc : V.Documented) (height fromKBH : UInt64) :
    V.readAmount (loadValue (resetExpired V d height fromKBH).lockedGNCValue).2 =
      if height < fromKBH then 0 else V.readAmount (loadValue d.lockedGNCValue).2 := by
  rw [resetExpired]
  split_ifs
  · exact hdoc.readAmount_zero
  · rfl

/-- The step of the refinement: a successful call does to the stored variables what it does to the
history. -/
theorem Holds.apply (hdoc : V.Documented) (hholds : d.Holds V c) {op : LockOp} {d' : CStateDomain}
    (hop : op.apply V d = .ok d') : d'.Holds V (c.after V op) := by
  cases op with
  | incLockedAssets fromKBH value till =>
      simp only [LockOp.apply, incLockedAssets, hholds.height] at hop
      split_ifs at hop
      injection hop with hop
      subst hop
      refine ⟨lockedTill_raiseLock hdoc till ?_, ?_, ?_⟩
      · exact (lockedTill_resetExpired V d _ fromKBH).trans hholds.height
      · simp [loadValue, Carried.after, LockOp.isSet]
      · rw [lockedGNCValue_raiseLock, loadValue, Option.getD_some, hdoc.readAmount_saveBigInt,
          readAmount_resetExpired hdoc, hholds.assets]
        rfl
  | setLockedAssets value till =>
      simp only [LockOp.apply, setLockedAssets, hholds.height] at hop
      split_ifs at hop
      injection hop with hop
      subst hop
      refine ⟨lockedTill_raiseLock hdoc till hholds.height, ?_, ?_⟩
      · simp [loadValue, Carried.after, LockOp.isSet]
      · simp [loadValue, Carried.after]

theorem Holds.run (hdoc : V.Documented) {ops : List LockOp} {d' : CStateDomain}
    (hholds : d.Holds V c) (hrun : LockOp.run V d ops = .ok d') :
    d'.Holds V (ops.foldl (Carried.after V) c) := by
  induction ops generalizing d c with
  | nil =>
      injection hrun with hrun
      rw [← hrun]
      exact hholds
  | cons op ops ih =>
      rw [LockOp.run] at hrun
      split at hrun
      · cases hrun
      · next d₁ hop => exact ih (hholds.apply hdoc hop) hrun

/-- What `getLockedAssets` answers, read off the history. -/
theorem Holds.getLockedAssets (hholds : d.Holds V c) (h : UInt64) :
    d.getLockedAssets V h =
      if c.lock.height < h then .ok (0, true)
      else if c.asInteger = true then .error (.thrown "Invalid data type or currency variable.")
      else .ok (c.assets, false) := by
  have htype : (loadValue d.lockedGNCValue).1 ≠ .noData ∧ (loadValue d.lockedGNCValue).1 ≠ .BigInt ↔
      c.asInteger = true := by
    rw [← hholds.type]
    cases (loadValue d.lockedGNCValue).1 <;> simp
  simp only [CStateDomain.getLockedAssets, hholds.height, hholds.assets, htype]

end CStateDomain

theorem Carried.of_concat (V : ValueCodec) (ops : List LockOp) (op : LockOp) :
    Carried.of V (ops ++ [op]) = (Carried.of V ops).after V op :=
  List.foldl_concat ..

theorem Lock.of_concat (ops : List LockOp) (op : LockOp) :
    Lock.of (ops ++ [op]) = (Lock.of ops).after op :=
  List.foldl_concat ..

theorem Carried.lock_of (V : ValueCodec) (ops : List LockOp) :
    (Carried.of V ops).lock = Lock.of ops := by
  induction ops using List.reverseRecOn with
  | nil => rfl
  | append_singleton ops op ih =>
      rw [of_concat, Lock.of_concat, ← ih]
      rfl

theorem Carried.asInteger_of (V : ValueCodec) (ops : List LockOp) :
    (Carried.of V ops).asInteger = false ↔ ∀ op ∈ ops.getLast?, op.isSet = false := by
  induction ops using List.reverseRecOn with
  | nil => simp [Carried.of]
  | append_singleton ops op ih => simp [of_concat, Carried.after]

theorem Lock.height_of (ops : List LockOp) :
    (Lock.of ops).height = ops.foldl (fun l op => max l op.tillBlockHeight) 0 := by
  induction ops using List.reverseRecOn with
  | nil => rfl
  | append_singleton ops op ih =>
      rw [of_concat, List.foldl_concat, ← ih]
      cases op <;> rfl

/-- An amount of nothing is carried as nothing. -/
theorem Carried.assets_of_amount_zero {V : ValueCodec} (hdoc : V.Documented) (ops : List LockOp)
    (hzero : (Lock.of ops).amount = 0) : (Carried.of V ops).assets = 0 := by
  induction ops using List.reverseRecOn with
  | nil => rfl
  | append_singleton ops op ih =>
      rw [Lock.of_concat] at hzero
      rw [of_concat]
      cases op with
      | incLockedAssets fromKBH value till =>
          obtain ⟨hbefore, hvalue⟩ := Nat.add_eq_zero_iff.mp hzero
          have hvalue : value = 0 := BitVec.eq_of_toNat_eq hvalue
          have hcarried : (if (Lock.of ops).height < fromKBH then 0 else (Carried.of V ops).assets)
              = 0 := by
            split_ifs with hexpired
            · rfl
            · exact ih (by simpa [hexpired] using hbefore)
          simp only [Carried.after, lock_of, hvalue, hcarried]
          rfl
      | setLockedAssets value till =>
          have hvalue : value = 0 := UInt64.toNat_inj.mp hzero
          simp only [Carried.after, hvalue]
          exact hdoc.readAmount_zero

/-! ### The parts of the law -/

section Parts

variable {V : ValueCodec} {ops : List LockOp} {d : CStateDomain}

theorem CStateDomain.holds_of_run (hdoc : V.Documented) (hrun : LockOp.run V {} ops = .ok d) :
    d.Holds V (Carried.of V ops) :=
  (CStateDomain.holds_empty V).run hdoc hrun

/-- Past the lock height nothing is locked, after every history. -/
theorem getLockedAssets_past (hdoc : V.Documented) (hrun : LockOp.run V {} ops = .ok d) {h : UInt64}
    (hpast : (Lock.of ops).height < h) : d.getLockedAssets V h = .ok (0, true) := by
  rw [(CStateDomain.holds_of_run hdoc hrun).getLockedAssets, Carried.lock_of, if_pos hpast]

/-- Up to the lock height, and at it, the answer is what is carried, unless the last call was a
`setLockedAssets`. -/
theorem getLockedAssets_within (hdoc : V.Documented) (hrun : LockOp.run V {} ops = .ok d)
    {h : UInt64} (hwithin : h ≤ (Lock.of ops).height) (answer : BigInt × Bool) :
    d.getLockedAssets V h = .ok answer ↔
      (∀ op ∈ ops.getLast?, op.isSet = false) ∧ answer = ((Carried.of V ops).assets, false) := by
  rw [(CStateDomain.holds_of_run hdoc hrun).getLockedAssets, Carried.lock_of,
    if_neg (UInt64.not_lt.mpr hwithin), ← Carried.asInteger_of V]
  cases (Carried.of V ops).asInteger with
  | false => simp [eq_comm]
  | true => simp

/-- Below the lock height the whole amount is locked exactly after histories that end in no
`setLockedAssets` and whose amount is carried without a loss. -/
theorem locked_iff (hdoc : V.Documented) (hrun : LockOp.run V {} ops = .ok d) :
    (∀ h, h < (Lock.of ops).height → ∃ assets : BigInt,
        d.getLockedAssets V h = .ok (assets, false) ∧ assets.toNat = (Lock.of ops).amount) ↔
      (Lock.of ops).height = 0 ∨ (∀ op ∈ ops.getLast?, op.isSet = false) ∧
        (Carried.of V ops).assets.toNat = (Lock.of ops).amount := by
  constructor
  · intro hlocked
    by_cases hheight : (Lock.of ops).height = 0
    · exact Or.inl hheight
    · have hpos : 0 < (Lock.of ops).height := UInt64.pos_iff_ne_zero.mpr hheight
      obtain ⟨assets, hbelow, hamount⟩ := hlocked 0 hpos
      obtain ⟨hlast, hassets⟩ :=
        (getLockedAssets_within hdoc hrun (UInt64.le_of_lt hpos) _).mp hbelow
      have hcarried : assets = (Carried.of V ops).assets := congrArg Prod.fst hassets
      exact Or.inr ⟨hlast, hcarried ▸ hamount⟩
  · rintro (hzero | ⟨hlast, hamount⟩) h hbelow
    · rw [hzero] at hbelow
      exact absurd hbelow UInt64.not_lt_zero
    · exact ⟨_, (getLockedAssets_within hdoc hrun (UInt64.le_of_lt hbelow) _).mpr ⟨hlast, rfl⟩,
        hamount⟩

/-- At the lock height what is carried is still locked. -/
theorem released_iff (hdoc : V.Documented) (hrun : LockOp.run V {} ops = .ok d) :
    (∀ h, (Lock.of ops).height ≤ h →
        ∃ justReleased, d.getLockedAssets V h = .ok (0, justReleased)) ↔
      (∀ op ∈ ops.getLast?, op.isSet = false) ∧ (Carried.of V ops).assets = 0 := by
  constructor
  · intro hreleased
    obtain ⟨justReleased, hat⟩ := hreleased _ (UInt64.le_refl _)
    obtain ⟨hlast, hanswer⟩ := (getLockedAssets_within hdoc hrun (UInt64.le_refl _) _).mp hat
    exact ⟨hlast, (congrArg Prod.fst hanswer).symm⟩
  · rintro ⟨hlast, hcarried⟩ h hreached
    rcases UInt64.lt_or_eq_of_le hreached with hpast | rfl
    · exact ⟨true, getLockedAssets_past hdoc hrun hpast⟩
    · exact ⟨false, (getLockedAssets_within hdoc hrun (UInt64.le_refl _) _).mpr
        ⟨hlast, by rw [hcarried]⟩⟩

/-- The law holds after exactly the histories that end in no `setLockedAssets` and lock nothing, or
never ask for a height and wrap to nothing: whatever is locked is still locked at its own height. -/
theorem locked_assets_law_iff (hdoc : V.Documented) (hrun : LockOp.run V {} ops = .ok d) :
    d.KeepsLock V ops ↔ (∀ op ∈ ops.getLast?, op.isSet = false) ∧
      ((Lock.of ops).amount = 0 ∨ (Lock.of ops).height = 0 ∧ (Carried.of V ops).assets = 0) := by
  constructor
  · intro hlaw
    obtain ⟨hlast, hcarried⟩ := (released_iff hdoc hrun).mp hlaw.released
    rcases (locked_iff hdoc hrun).mp hlaw.locked with hheight | ⟨_, hamount⟩
    · exact ⟨hlast, Or.inr ⟨hheight, hcarried⟩⟩
    · rw [hcarried] at hamount
      exact ⟨hlast, Or.inl hamount.symm⟩
  · rintro ⟨hlast, hnothing⟩
    have hcarried : (Carried.of V ops).assets = 0 := by
      rcases hnothing with hzero | ⟨_, hzero⟩
      · exact Carried.assets_of_amount_zero hdoc ops hzero
      · exact hzero
    refine ⟨?_, (locked_iff hdoc hrun).mpr ?_, (released_iff hdoc hrun).mpr ⟨hlast, hcarried⟩⟩
    · rw [(CStateDomain.holds_of_run hdoc hrun).height, Carried.lock_of, Lock.height_of]
    · rcases hnothing with hzero | ⟨hzero, _⟩
      · exact Or.inr ⟨hlast, by rw [hcarried, hzero]; rfl⟩
      · exact Or.inl hzero

end Parts

/-! ### Numbers as they lie in memory -/

/-- Integers as eight bytes of memory, amounts as the bytes that `BytesToBigInt` reads. -/
def memoryCodec : ValueCodec where
  saveInteger n := fixedBytes 8 n.toNat
  saveBigInt n := BigIntToBytes n.toNat
  BytesToBigInt b := BitVec.ofNat 256 (Gridnet.BytesToBigInt b)

theorem memoryCodec_documented : memoryCodec.Documented where
  copyInteger_saveInteger n := by
    have hread : BytesToBigInt (fixedBytes 8 n.toNat) = n.toNat :=
      BytesToBigInt_fixedBytes n.toNat_lt
    rw [memoryCodec, ValueCodec.copyInteger, if_pos (by rw [fixedBytes_length]), ← BytesToBigInt,
      hread, UInt64.ofNat_toNat]
  readAmount_saveBigInt n := by
    have hread : BytesToBigInt (BigIntToBytes n.toNat) = n.toNat := BytesToBigInt_BigIntToBytes _
    calc memoryCodec.readAmount (BigIntToBytes n.toNat)
        = BitVec.ofNat 256 (BytesToBigInt (BigIntToBytes n.toNat)) :=
          if_neg (BigIntToBytes_ne_nil _)
      _ = n := by rw [hread, BitVec.ofNat_toNat, BitVec.setWidth_eq]
  readAmount_zero := by decide +kernel

/-- Nothing added, and nothing locked. -/
theorem locked_assets_law_of_nothing :
    ∃ d, LockOp.run memoryCodec {} [.incLockedAssets 3 0 10, .incLockedAssets 11 0 20] = .ok d ∧
      d.KeepsLock memoryCodec [.incLockedAssets 3 0 10, .incLockedAssets 11 0 20] :=
  ⟨_, rfl, (locked_assets_law_iff memoryCodec_documented rfl).mpr ⟨by decide, Or.inl rfl⟩⟩

/-- Five coins locked till height 10 are not released at 10, and after a `setLockedAssets` the amount
cannot be read at all. -/
theorem locked_at_release_height :
    (∃ d, LockOp.run memoryCodec {} [.incLockedAssets 3 5 10] = .ok d ∧
      d.getLockedAssets memoryCodec 10 = .ok (5, false) ∧
      ¬ d.KeepsLock memoryCodec [.incLockedAssets 3 5 10]) ∧
    ∃ d, LockOp.run memoryCodec {} [.setLockedAssets 5 10] = .ok d ∧
      d.getLockedAssets memoryCodec 3 =
        .error (.thrown "Invalid data type or currency variable.") ∧
      ¬ d.KeepsLock memoryCodec [.setLockedAssets 5 10] := by
  refine ⟨⟨_, rfl, by decide +kernel, fun hlaw => ?_⟩, ⟨_, rfl, by decide +kernel, fun hlaw => ?_⟩⟩
  · obtain ⟨justReleased, hat⟩ := hlaw.released 10 (by decide)
    revert hat
    cases justReleased <;> decide +kernel
  · obtain ⟨assets, hbelow, _⟩ := hlaw.locked 3 (by decide)
    have hthrown : CStateDomain.getLockedAssets memoryCodec
        ⟨some (.unsignedInteger, fixedBytes 8 10), some (.unsignedInteger, fixedBytes 8 5)⟩ 3 =
        .error (.thrown "Invalid data type or currency variable.") := by decide +kernel
    cases hthrown.symm.trans hbelow

end Gridnet
