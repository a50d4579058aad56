import Gridnet.TransactionSigning
import Gridnet.Machine

/-! The operations of `CDataConcatenator` with what they return. A scalar that is not written as 64 bits leaves the
offset behind, so that the next operation writes over it; the big numbers and the empty vector are not held to the
size limit. Apart from these the concatenator concatenates. -/

namespace Gridnet

/-- A scalar of one, four or eight bytes: its memory, and its value converted to 64 bits. -/
structure Scalar where
  memory : Bytes
  value : UInt64
  size : memory.length = 1 ∨ memory.length = 4 ∨ memory.length = 8

def Scalar.uint8 (val : UInt8) : Scalar := ⟨[val], val.toUInt64, .inl rfl⟩

namespace CDataConcatenator

/-- The check several operations make before they write. -/
def exceeds (concat : CDataConcatenator) (size : ℕ) : Bool :=
  concat.mSizeLimit ≠ 0 ∧ concat.mInternalTemp.length + size > concat.mSizeLimit

/-- The bytes are copied to the offset, which stays. -/
def writeInPlace (concat : CDataConcatenator) (bytes : Bytes) : CDataConcatenator :=
  { concat with
    mInternalTemp := memcpy (concat.mInternalTemp ++ List.replicate bytes.length 0) concat.mOffset bytes }

/-- `add` of a byte vector. -/
def addVector (concat : CDataConcatenator) (vec : Bytes) : Bool × CDataConcatenator :=
  if vec.length = 0 then (true, concat)
  else if concat.exceeds vec.length then (false, concat)
  else (true, concat.write vec)

/-- `add` of a string. -/
def addString (concat : CDataConcatenator) (str : Bytes) : Bool × CDataConcatenator :=
  if concat.exceeds str.length then (false, concat) else (true, concat.write str)

/-- `add` of a scalar. Without the compatibility mode neither is the limit looked at nor does the offset move. -/
def addScalar (concat : CDataConcatenator) (val : Scalar) (gridScriptCompatibilityMode : Bool) :
    Bool × CDataConcatenator :=
  if gridScriptCompatibilityMode then
    if concat.exceeds 8 then (false, concat) else (true, concat.write (fixedBytes 8 val.value.toNat))
  else (true, concat.writeInPlace val.memory)

/-- `addGSC` of a number; a Boolean is one of the numbers 0 and 1. -/
def addGSCNumber (concat : CDataConcatenator) (val : UInt32) : Bool × CDataConcatenator :=
  if concat.exceeds 8 then (false, concat) else (true, concat.write (fixedBytes 8 val.toNat))

def addGSCBool (concat : CDataConcatenator) (val : Bool) : Bool × CDataConcatenator :=
  concat.addGSCNumber (if val then 1 else 0)

/-- `addGSC` of a byte vector: nothing is written as a stack element of zeros. -/
def addGSCVector (concat : CDataConcatenator) (vec : Bytes) : Bool × CDataConcatenator :=
  if vec.length = 0 then (true, concat.write (fixedBytes 8 0)) else concat.addVector vec

/-- `addBigInt`, `addBigFloat` and `addBigSInt`, which differ in the bytes of their numbers; the compatibility mode is
not looked at. -/
def addBigNumber (concat : CDataConcatenator) (bytes : Bytes) : Bool × CDataConcatenator :=
  (true, concat.write bytes)

/-! ### Runs -/

variable {BigFloat BigSInt : Type}

/-- How `CTools` writes the big numbers it does not write as `BigInt`. -/
structure BigNumberBytes (BigFloat BigSInt : Type) where
  BigFloatToBytes : BigFloat → Bytes
  BigSIntToBytes : BigSInt → Bytes

inductive Operation (BigFloat BigSInt : Type) where
  | addVector (vec : Bytes)
  | addString (str : Bytes)
  | addScalar (val : Scalar) (gridScriptCompatibilityMode : Bool)
  | addGSCBool (val : Bool)
  | addGSCNumber (val : UInt32)
  | addGSCVector (vec : Bytes)
  | addBigInt (val : BigInt) (gridScriptCompatibilityMode : Bool)
  | addBigFloat (val : BigFloat) (gridScriptCompatibilityMode : Bool)
  | addBigSInt (val : BigSInt) (gridScriptCompatibilityMode : Bool)

variable (tools : BigNumberBytes BigFloat BigSInt)

def call (concat : CDataConcatenator) : Operation BigFloat BigSInt → Bool × CDataConcatenator
  | .addVector vec => concat.addVector vec
  | .addString str => concat.addString str
  | .addScalar val mode => concat.addScalar val mode
  | .addGSCBool val => concat.addGSCBool val
  | .addGSCNumber val => concat.addGSCNumber val
  | .addGSCVector vec => concat.addGSCVector vec
  | .addBigInt val _ => concat.addBigNumber (BigIntToBytes val.toNat)
  | .addBigFloat val _ => concat.addBigNumber (tools.BigFloatToBytes val)
  | .addBigSInt val _ => concat.addBigNumber (tools.BigSIntToBytes val)

/-- How the argument of an operation is encoded. -/
def encoding : Operation BigFloat BigSInt → Bytes
  | .addVector vec => vec
  | .addString str => str
  | .addScalar val mode => if mode then fixedBytes 8 val.value.toNat else val.memory
  | .addGSCBool val => fixedBytes 8 (if val then 1 else 0)
  | .addGSCNumber val => fixedBytes 8 val.toNat
  | .addGSCVector vec => if vec.length = 0 then fixedBytes 8 0 else vec
  | .addBigInt val _ => BigIntToBytes val.toNat
  | .addBigFloat val _ => tools.BigFloatToBytes val
  | .addBigSInt val _ => tools.BigSIntToBytes val

/-- The encodings of the arguments whose calls return true, in their order. -/
def acceptedData : CDataConcatenator → List (Operation BigFloat BigSInt) → Bytes
  | _, [] => []
  | concat, op :: ops =>
      (if (call tools concat op).1 then encoding tools op else []) ++ acceptedData (call tools concat op).2 ops

/-- What a call with an argument encoded as these bytes has to do. -/
structure Sound (concat : CDataConcatenator) (bytes : Bytes) (result : Bool × CDataConcatenator) : Prop where
  offset : result.2.mOffset = result.2.mInternalTemp.length
  accepted : result.1 = true → result.2.getData = concat.getData ++ bytes
  refused : result.1 = false → result.2 = concat
  bounded : concat.mSizeLimit ≠ 0 → result.2.mInternalTemp.length ≤ concat.mSizeLimit

def SoundCall (concat : CDataConcatenator) (op : Operation BigFloat BigSInt) : Prop :=
  Sound concat (encoding tools op) (call tools concat op)

/-- The concatenator of a size limit concatenates in a run of operations. -/
def Concatenates (mSizeLimit : ℕ) (ops : List (Operation BigFloat BigSInt)) : Prop :=
  Machine.EveryStep (call tools) (SoundCall tools) { mSizeLimit } ops ∧
    (Machine.final (call tools) { mSizeLimit } ops).getData = acceptedData tools { mSizeLimit } ops

/-- What the operations that do not look at the limit leave to their callers. -/
def Fits (concat : CDataConcatenator) (bytes : Bytes) : Prop :=
  concat.mSizeLimit ≠ 0 → concat.mInternalTemp.length + bytes.length ≤ concat.mSizeLimit

/-- No scalar is written as its memory, and what is written without a look at the limit fits. -/
def Accountable (concat : CDataConcatenator) : Operation BigFloat BigSInt → Prop
  | .addScalar _ mode => mode = true
  | .addGSCVector vec => vec = [] → concat.Fits (fixedBytes 8 0)
  | .addBigInt val _ => concat.Fits (BigIntToBytes val.toNat)
  | .addBigFloat val _ => concat.Fits (tools.BigFloatToBytes val)
  | .addBigSInt val _ => concat.Fits (tools.BigSIntToBytes val)
  | _ => True

/-! ### Steps -/

/-- The offset is at the end, and the limit is kept. -/
structure Coherent (concat : CDataConcatenator) : Prop where
  offset : concat.mOffset = concat.mInternalTemp.length
  bounded : concat.mSizeLimit ≠ 0 → concat.mInternalTemp.length ≤ concat.mSizeLimit

variable {tools} {concat : CDataConcatenator}

theorem memcpy_at_end (temp bytes : Bytes) :
    memcpy (temp ++ List.replicate bytes.length 0) temp.length bytes = temp ++ bytes := by
  unfold memcpy
  simp

/-- From a coherent state, bytes are appended. -/
theorem Coherent.write_eq (hcoherent : concat.Coherent) (bytes : Bytes) :
    concat.write bytes = { concat with
      mInternalTemp := concat.mInternalTemp ++ bytes
      mOffset := (concat.mInternalTemp ++ bytes).length } := by
  unfold write
  rw [hcoherent.offset, memcpy_at_end, List.length_append]

theorem sound_write (hcoherent : concat.Coherent) (bytes : Bytes) :
    Sound concat bytes (true, concat.write bytes) ↔ concat.Fits bytes := by
  rw [hcoherent.write_eq]
  unfold Fits
  rw [← List.length_append]
  constructor
  · exact fun hsound => hsound.bounded
  · exact fun hfits => ⟨rfl, fun _ => rfl, nofun, hfits⟩

theorem sound_guarded (hcoherent : concat.Coherent) (bytes : Bytes) :
    Sound concat bytes (if concat.exceeds bytes.length then (false, concat) else (true, concat.write bytes)) := by
  unfold exceeds
  split_ifs with hexceeds
  · exact ⟨hcoherent.offset, nofun, fun _ => rfl, hcoherent.bounded⟩
  · apply (sound_write hcoherent bytes).mpr
    intro hlimit
    simp only [decide_eq_true_eq, not_and, Nat.not_lt] at hexceeds
    exact hexceeds hlimit

theorem sound_nothing (hcoherent : concat.Coherent) : Sound concat [] (true, concat) :=
  ⟨hcoherent.offset, fun _ => (List.append_nil _).symm, nofun, hcoherent.bounded⟩

/-- The offset is behind the data after a scalar was written as its memory. -/
theorem not_sound_inPlace (hcoherent : concat.Coherent) {bytes : Bytes} (hne : 0 < bytes.length) :
    ¬ Sound concat bytes (true, concat.writeInPlace bytes) := by
  intro hsound
  have hoffset := hsound.offset
  unfold writeInPlace at hoffset
  rw [hcoherent.offset, memcpy_at_end, List.length_append] at hoffset
  omega

theorem Scalar.length_pos (val : Scalar) : 0 < val.memory.length := by
  rcases val.size with hone | hfour | height <;> omega

/-- From a coherent state a call is sound exactly if it is accountable. -/
theorem soundCall_iff (hcoherent : concat.Coherent) (op : Operation BigFloat BigSInt) :
    SoundCall tools concat op ↔ Accountable tools concat op := by
  have hnumber : ∀ n, Sound concat (fixedBytes 8 n)
      (if concat.exceeds 8 then (false, concat) else (true, concat.write (fixedBytes 8 n))) := by
    intro n
    have hguarded := sound_guarded hcoherent (fixedBytes 8 n)
    rw [fixedBytes_length] at hguarded
    exact hguarded
  have hvector : ∀ vec, Sound concat vec (concat.addVector vec) := by
    intro vec
    unfold addVector
    by_cases hempty : vec.length = 0
    · rw [if_pos hempty, List.length_eq_zero_iff.mp hempty]
      exact sound_nothing hcoherent
    · rw [if_neg hempty]
      exact sound_guarded hcoherent vec
  cases op with
  | addVector vec => exact iff_of_true (hvector vec) trivial
  | addString str => exact iff_of_true (sound_guarded hcoherent str) trivial
  | addScalar val mode =>
      cases mode with
      | true => exact iff_of_true (hnumber _) rfl
      | false => exact iff_of_false (not_sound_inPlace hcoherent (Scalar.length_pos val)) nofun
  | addGSCBool val =>
      refine iff_of_true ?_ trivial
      cases val with
      | true => exact hnumber 1
      | false => exact hnumber 0
  | addGSCNumber val => exact iff_of_true (hnumber _) trivial
  | addGSCVector vec =>
      unfold SoundCall Accountable call encoding addGSCVector
      by_cases hempty : vec.length = 0
      · simp only [if_pos hempty]
        rw [sound_write hcoherent]
        exact ⟨fun hfits _ => hfits, fun hfits => hfits (List.length_eq_zero_iff.mp hempty)⟩
      · simp only [if_neg hempty]
        exact iff_of_true (hvector vec) fun hnil => absurd (List.length_eq_zero_iff.mpr hnil) hempty
  | addBigInt val mode => exact sound_write hcoherent _
  | addBigFloat val mode => exact sound_write hcoherent _
  | addBigSInt val mode => exact sound_write hcoherent _

theorem call_mSizeLimit (concat : CDataConcatenator) (op : Operation BigFloat BigSInt) :
    (call tools concat op).2.mSizeLimit = concat.mSizeLimit := by
  cases op <;> simp only [call, addVector, addString, addScalar, addGSCBool, addGSCNumber, addGSCVector,
    addBigNumber] <;> (try split_ifs) <;> rfl

theorem SoundCall.coherent {op : Operation BigFloat BigSInt} (hsound : SoundCall tools concat op) :
    (call tools concat op).2.Coherent := by
  refine ⟨hsound.offset, ?_⟩
  rw [call_mSizeLimit]
  exact hsound.bounded

/-- Where all calls are sound the data is what was accepted. -/
theorem getData_final {ops : List (Operation BigFloat BigSInt)}
    (hsound : Machine.EveryStep (call tools) (SoundCall tools) concat ops) :
    (Machine.final (call tools) concat ops).getData = concat.getData ++ acceptedData tools concat ops := by
  induction ops generalizing concat with
  | nil => exact (List.append_nil _).symm
  | cons op ops ih =>
      obtain ⟨hhere, hrest⟩ := hsound
      have hdata : (call tools concat op).2.getData =
          concat.getData ++ if (call tools concat op).1 then encoding tools op else [] := by
        cases hresult : (call tools concat op).1 with
        | true => exact hhere.accepted hresult
        | false =>
            rw [hhere.refused hresult]
            exact (List.append_nil _).symm
      calc (Machine.final (call tools) (call tools concat op).2 ops).getData
          = (call tools concat op).2.getData ++ acceptedData tools (call tools concat op).2 ops := ih hrest
        _ = concat.getData ++ acceptedData tools concat (op :: ops) := by
            rw [hdata, List.append_assoc, acceptedData]

/-- In a run of operations the concatenator concatenates exactly if every one is accountable. -/
theorem concatenates_iff (tools : BigNumberBytes BigFloat BigSInt) (mSizeLimit : ℕ)
    (ops : List (Operation BigFloat BigSInt)) :
    Concatenates tools mSizeLimit ops ↔
      Machine.EveryStep (call tools) (Accountable tools) { mSizeLimit } ops := by
  have hstart : Coherent { mSizeLimit } := ⟨rfl, fun _ => Nat.zero_le _⟩
  have hsame : ∀ (concat : CDataConcatenator) op, concat.Coherent →
      (SoundCall tools concat op ↔ Accountable tools concat op) := by
    intro concat op hcoherent
    exact soundCall_iff hcoherent op
  rw [← Machine.everyStep_iff_of_invariant hsame _ hstart ops]
  · exact and_iff_left_of_imp getData_final
  · intro concat op hcoherent haccountable
    exact ((soundCall_iff hcoherent op).mpr haccountable).coherent

/-- A byte written as it is, and then written over. -/
theorem scalar_written_over : ¬ ∀ (mSizeLimit : ℕ) (ops : List (Operation Bytes Bytes)),
    Concatenates ⟨id, id⟩ mSizeLimit ops := by
  intro hconcatenates
  have hdata := (hconcatenates 0 [.addScalar (.uint8 1) false, .addVector [2]]).2
  exact absurd hdata (by decide)

end CDataConcatenator
end Gridnet
