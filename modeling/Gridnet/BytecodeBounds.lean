import Gridnet.BytecodeFields
import Gridnet.Sha256

/-! The decoder on arbitrary bytes. Every turn of the loop of `decompile` moves the offset on and leaves
it within the bytecode, so the loop ends; a slice stays within the bytecode as long as the sum in the
check of `getContentBits` does not wrap around. -/

namespace Gridnet

/-- The version of a bytecode, by its first byte. -/
def bytecodeVersion (bytecode : Bytes) : ℕ := if 192 ≤ bytecode.headD 0 then 2 else 1

section Reached

variable (sha256 : Bytes → Bytes32) (definitions : List Definition) (bytecode : Bytes)

/-- The state in which `decompile` enters its loop; `none` where it answers `false` before. -/
def loopStart : Option DecompileState :=
  if bytecode = [] then none
  else if bytecodeVersion bytecode = 2 ∧ bytecode.length < 33 then none
  else some {
    mCurrentOffset := if bytecodeVersion bytecode = 2 then 33 else 0
    mCurrentImageHash := initializeKeywordHash sha256 }

/-- The states before the turns of the loop. -/
inductive Reached : DecompileState → Prop
  | start {st : DecompileState} (hstart : loopStart sha256 bytecode = some st) : Reached st
  | turn {st st' : DecompileState} (hst : Reached st) (hinside : st.mCurrentOffset < bytecode.length)
      (hturn : decodeOpcode sha256 definitions (bytecodeVersion bytecode) bytecode st = .ok st') :
      Reached st'

/-- The offset and the length with which the turn from `st` calls `getContentBits`; `none` where it
does not. -/
def contentRead (st : DecompileState) : Option (ℕ × UInt64) :=
  match getIDBits bytecode st.mCurrentOffset with
  | none => none
  | some (byteCodeID, offset) =>
      let special := 1 ≤ byteCodeID ∧ byteCodeID ≤ BYTECODE_ID_STRING_LITERAL
      let definition :=
        if special then none else definitions.find? fun definition => definition.id = byteCodeID
      if special ∨ definition.any (fun definition => definition.extType) = true then
        (getContentLength bytecode offset).map fun (contentLength, offset) => (offset, contentLength)
      else none

/-- What the decoder owes on any bytes: every turn moves the offset on and not beyond the end, every
slice that passes the check lies within the bytecode, and the loop ends, at the end of the bytecode
unless it is rejected. -/
structure DecompilesSafely : Prop where
  advances : ∀ st st', Reached sha256 definitions bytecode st →
    decodeOpcode sha256 definitions (bytecodeVersion bytecode) bytecode st = .ok st' →
      st.mCurrentOffset < st'.mCurrentOffset ∧ st'.mCurrentOffset ≤ bytecode.length
  slices : ∀ st offset length, Reached sha256 definitions bytecode st →
    contentRead definitions bytecode st = some (offset, length) →
      (offset + length.toNat) % 2 ^ 64 ≤ bytecode.length → offset + length.toNat ≤ bytecode.length
  terminates : ∀ st, loopStart sha256 bytecode = some st → ∀ turns, bytecode.length ≤ turns →
    decodeLoop sha256 definitions (bytecodeVersion bytecode) bytecode turns st =
        decodeLoop sha256 definitions (bytecodeVersion bytecode) bytecode bytecode.length st ∧
      ∀ last, decodeLoop sha256 definitions (bytecodeVersion bytecode) bytecode turns st = .ok last →
        last.mCurrentOffset = bytecode.length
  inside : decompile sha256 definitions bytecode ≠ .error .outOfBounds

end Reached

variable {sha256 : Bytes → Bytes32} {definitions : List Definition} {bytecode : Bytes}
  {st st' : DecompileState}

/-- All a turn can do: reject the bytecode before it reads content, step over an opcode without
content, or read content, and then end as the slice does or move past it. -/
theorem decodeOpcode_spec (sha256 : Bytes → Bytes32) (definitions : List Definition) (version : ℕ)
    (bytecode : Bytes) (st : DecompileState) :
    (contentRead definitions bytecode st = none ∧
      (decodeOpcode sha256 definitions version bytecode st = .error .rejected ∨
        ∃ st', decodeOpcode sha256 definitions version bytecode st = .ok st' ∧
          st.mCurrentOffset < st'.mCurrentOffset ∧ st'.mCurrentOffset ≤ bytecode.length)) ∨
    ∃ offset length, contentRead definitions bytecode st = some (offset, length) ∧
      st.mCurrentOffset < offset ∧ offset ≤ bytecode.length ∧
      match getContentBits bytecode offset length with
      | .error e => decodeOpcode sha256 definitions version bytecode st = .error e
      | .ok _ => decodeOpcode sha256 definitions version bytecode st = .error .rejected ∨
          ∃ st', decodeOpcode sha256 definitions version bytecode st = .ok st' ∧
            st'.mCurrentOffset = offset + length.toNat := by
  unfold decodeOpcode contentRead
  rcases hid : getIDBits bytecode st.mCurrentOffset with _ | ⟨id, afterID⟩
  · exact Or.inl ⟨rfl, Or.inl rfl⟩
  · obtain ⟨hafterID, hafterID_le⟩ := getIDBits_offset hid
    dsimp only
    generalize (if 1 ≤ id ∧ id ≤ BYTECODE_ID_STRING_LITERAL then none
      else definitions.find? fun definition => definition.id = id) = definition
    split_ifs with hcontent
    · rcases hlength : getContentLength bytecode afterID with _ | ⟨length, offset⟩
      · exact Or.inl ⟨rfl, Or.inl rfl⟩
      · obtain ⟨hoffset, hoffset_le⟩ := getContentLength_offset hlength
        refine Or.inr ⟨offset, length, rfl, hafterID.trans hoffset, hoffset_le, ?_⟩
        dsimp only
        cases getContentBits bytecode offset length with
        | error e => rfl
        | ok content =>
            dsimp only
            rcases contentWords sha256 version id definition content st.mCurrentImageHash with
              _ | ⟨words, hash⟩
            · exact Or.inl rfl
            · exact Or.inr ⟨_, rfl, rfl⟩
    · cases definition with
      | none => exact Or.inl ⟨rfl, Or.inl rfl⟩
      | some definition => exact Or.inl ⟨rfl, Or.inr ⟨_, rfl, hafterID, hafterID_le⟩⟩

theorem decodeOpcode_advances {version : ℕ}
    (hturn : decodeOpcode sha256 definitions version bytecode st = .ok st') :
    st.mCurrentOffset < st'.mCurrentOffset ∧ st'.mCurrentOffset ≤ bytecode.length := by
  rcases decodeOpcode_spec sha256 definitions version bytecode st with
    ⟨_, hrejected | ⟨next, hnext, hbounds⟩⟩ | ⟨offset, length, _, hoffset, _, hend⟩
  · rw [hrejected] at hturn
    cases hturn
  · rw [hnext] at hturn
    cases hturn
    exact hbounds
  · cases hbits : getContentBits bytecode offset length with
    | error e =>
        rw [hbits] at hend
        rw [hend] at hturn
        cases hturn
    | ok content =>
        rw [hbits] at hend
        have hfits := getContentBits_offset hbits
        rcases hend with hrejected | ⟨next, hnext, hpast⟩
        · rw [hrejected] at hturn
          cases hturn
        · rw [hnext] at hturn
          cases hturn
          omega

/-- A turn ends in the fault only where the sum of offset and length wraps around. -/
theorem decodeOpcode_inside {version : ℕ}
    (hbounded : ∀ offset length, contentRead definitions bytecode st = some (offset, length) →
      offset + length.toNat < 2 ^ 64) :
    decodeOpcode sha256 definitions version bytecode st ≠ .error .outOfBounds := by
  intro hfault
  rcases decodeOpcode_spec sha256 definitions version bytecode st with
    ⟨_, hrejected | ⟨next, hnext, _⟩⟩ | ⟨offset, length, hread, _, _, hend⟩
  · rw [hrejected] at hfault
    cases hfault
  · rw [hnext] at hfault
    cases hfault
  · have hsum := Nat.mod_eq_of_lt (hbounded offset length hread)
    unfold getContentBits at hend
    rw [hsum] at hend
    split_ifs at hend
    · rw [hend] at hfault
      cases hfault
    · rcases hend with hrejected | ⟨next, hnext, _⟩
      · rw [hrejected] at hfault
        cases hfault
      · rw [hnext] at hfault
        cases hfault

theorem contentRead_offset {offset : ℕ} {length : UInt64}
    (hread : contentRead definitions bytecode st = some (offset, length)) :
    offset ≤ bytecode.length := by
  rcases decodeOpcode_spec (fun _ => ⟨List.replicate 32 0, rfl⟩) definitions 2 bytecode st with
    ⟨hnone, _⟩ | ⟨offset', length', hread', _, hle, _⟩
  · rw [hnone] at hread
    cases hread
  · rw [hread'] at hread
    cases hread
    exact hle

/-! ### The loop -/

theorem Reached.offset_le (hst : Reached sha256 definitions bytecode st) :
    st.mCurrentOffset ≤ bytecode.length := by
  cases hst with
  | start hstart =>
      unfold loopStart at hstart
      split_ifs at hstart <;> cases hstart <;> dsimp only
      · omega
      · exact Nat.zero_le _
  | turn _ _ hturn => exact (decodeOpcode_advances hturn).2

theorem decodeLoop_at_end (version turns : ℕ) (hend : ¬ st.mCurrentOffset < bytecode.length) :
    decodeLoop sha256 definitions version bytecode turns st = .ok st := by
  cases turns with
  | zero => rfl
  | succ turns => rw [decodeLoop, if_neg hend]

/-- Once there are as many turns as bytes left, more of them change nothing. -/
theorem decodeLoop_stable (version : ℕ) {enough turns : ℕ}
    (henough : bytecode.length - st.mCurrentOffset ≤ enough) (hturns : enough ≤ turns) :
    decodeLoop sha256 definitions version bytecode turns st =
      decodeLoop sha256 definitions version bytecode enough st := by
  induction enough generalizing turns st with
  | zero =>
      rw [decodeLoop_at_end version turns (by omega), decodeLoop_at_end version 0 (by omega)]
  | succ enough ih =>
      obtain ⟨turns, rfl⟩ : ∃ t, turns = t + 1 := ⟨turns - 1, by omega⟩
      rw [decodeLoop, decodeLoop]
      split_ifs with hinside
      · cases hturn : decodeOpcode sha256 definitions version bytecode st with
        | error e => rfl
        | ok st' =>
            obtain ⟨hlt, -⟩ := decodeOpcode_advances hturn
            exact ih (by omega) (by omega)
      · rfl

theorem decodeLoop_last (version : ℕ) {turns : ℕ} {last : DecompileState}
    (hst : st.mCurrentOffset ≤ bytecode.length)
    (hturns : bytecode.length - st.mCurrentOffset ≤ turns)
    (hlast : decodeLoop sha256 definitions version bytecode turns st = .ok last) :
    last.mCurrentOffset = bytecode.length := by
  induction turns generalizing st with
  | zero =>
      cases hlast
      omega
  | succ turns ih =>
      rw [decodeLoop] at hlast
      split_ifs at hlast with hinside
      · cases hturn : decodeOpcode sha256 definitions version bytecode st with
        | error e =>
            rw [hturn] at hlast
            cases hlast
        | ok st' =>
            obtain ⟨hlt, hle⟩ := decodeOpcode_advances hturn
            rw [hturn] at hlast
            exact ih hle (by omega) hlast
      · cases hlast
        omega

/-- A loop none of whose turns ends in the fault does not end in it. -/
theorem decodeLoop_inside {turns : ℕ}
    (hinside : ∀ st, Reached sha256 definitions bytecode st →
      decodeOpcode sha256 definitions (bytecodeVersion bytecode) bytecode st ≠ .error .outOfBounds)
    (hst : Reached sha256 definitions bytecode st) :
    decodeLoop sha256 definitions (bytecodeVersion bytecode) bytecode turns st ≠
      .error .outOfBounds := by
  induction turns generalizing st with
  | zero => exact fun hfault => by cases hfault
  | succ turns ih =>
      rw [decodeLoop]
      split_ifs with hlt
      · cases hturn : decodeOpcode sha256 definitions (bytecodeVersion bytecode) bytecode st with
        | error e =>
            have hsafe := hinside st hst
            rw [hturn] at hsafe
            exact hsafe
        | ok st' => exact ih (hst.turn hlt hturn)
      · exact fun hfault => by cases hfault

/-- `decompile` as its loop and what is checked after it. -/
theorem decompile_eq (sha256 : Bytes → Bytes32) (definitions : List Definition) (bytecode : Bytes) :
    decompile sha256 definitions bytecode =
      match loopStart sha256 bytecode with
      | none => .error .rejected
      | some st =>
          match decodeLoop sha256 definitions (bytecodeVersion bytecode) bytecode bytecode.length st with
          | .error e => .error e
          | .ok st =>
              if bytecodeVersion bytecode = 2 ∧ st.mCurrentImageHash.1 ≠ (bytecode.drop 1).take 32 then
                .error .rejected
              else if joinWords st.resultWords = [] then .error .rejected
              else .ok (joinWords st.resultWords) := by
  cases bytecode with
  | nil => rfl
  | cons marker rest =>
      have hversion : bytecodeVersion (marker :: rest) = if 192 ≤ marker then 2 else 1 := rfl
      rw [loopStart, if_neg (List.cons_ne_nil marker rest), decompile, hversion]
      by_cases hshort : (if 192 ≤ marker then 2 else 1) = 2 ∧ (marker :: rest).length < 33
      · rw [if_pos hshort, if_pos hshort]
      · rewrite [if_neg hshort, if_neg hshort]
        rfl

theorem decompile_inside
    (hloop : ∀ st, loopStart sha256 bytecode = some st →
      decodeLoop sha256 definitions (bytecodeVersion bytecode) bytecode bytecode.length st ≠
        .error .outOfBounds) :
    decompile sha256 definitions bytecode ≠ .error .outOfBounds := by
  rw [decompile_eq]
  cases hstart : loopStart sha256 bytecode with
  | none => exact fun hfault => by cases hfault
  | some st =>
      have hsafe := hloop st hstart
      cases hend : decodeLoop sha256 definitions (bytecodeVersion bytecode) bytecode
          bytecode.length st with
      | error e =>
          dsimp only
          rw [hend] at hsafe ⊢
          exact fun hfault => hsafe (by cases hfault; rfl)
      | ok last =>
          dsimp only
          rw [hend]
          dsimp only
          split_ifs <;> exact fun hfault => by cases hfault

/-- The decoder is safe on exactly those bytes at which no turn that is reached reads a length whose
sum with the offset wraps around. -/
theorem decompilesSafely_iff (sha256 : Bytes → Bytes32) (definitions : List Definition)
    {bytecode : Bytes} (hsize : bytecode.length < 2 ^ 63) :
    DecompilesSafely sha256 definitions bytecode ↔
      ∀ st offset length, Reached sha256 definitions bytecode st →
        contentRead definitions bytecode st = some (offset, length) →
          offset + length.toNat < 2 ^ 64 := by
  constructor
  · intro hsafe st offset length hst hread
    by_contra hwraps
    have hoffset := contentRead_offset hread
    have hlength := length.toNat_lt
    have hmod : (offset + length.toNat) % 2 ^ 64 = offset + length.toNat - 2 ^ 64 := by
      rw [Nat.mod_eq_sub_mod (by omega), Nat.mod_eq_of_lt (by omega)]
    have hslice := hsafe.slices st offset length hst hread (by omega)
    omega
  · intro hbounded
    have hturns : ∀ st, Reached sha256 definitions bytecode st →
        decodeOpcode sha256 definitions (bytecodeVersion bytecode) bytecode st ≠
          .error .outOfBounds :=
      fun st hst => decodeOpcode_inside fun offset length => hbounded st offset length hst
    refine ⟨fun st st' _ hturn => decodeOpcode_advances hturn, ?_, ?_, ?_⟩
    · intro st offset length hst hread hcheck
      rwa [Nat.mod_eq_of_lt (hbounded st offset length hst hread)] at hcheck
    · intro st hstart turns hturnsLe
      have hreached : Reached sha256 definitions bytecode st := .start hstart
      have hle := hreached.offset_le
      have hleft : bytecode.length - st.mCurrentOffset ≤ bytecode.length := Nat.sub_le _ _
      exact ⟨decodeLoop_stable _ hleft hturnsLe,
        fun last hlast => decodeLoop_last _ hle (hleft.trans hturnsLe) hlast⟩
    · exact decompile_inside fun st hstart => decodeLoop_inside hturns (.start hstart)

/-- Where every byte is below 128 no length has more than one byte. -/
theorem contentRead_of_low_bytes (hlow : ∀ b ∈ bytecode, b.toNat < 128) {offset : ℕ} {length : UInt64}
    (hread : contentRead definitions bytecode st = some (offset, length)) : length.toNat < 128 := by
  unfold contentRead at hread
  rcases hid : getIDBits bytecode st.mCurrentOffset with _ | ⟨id, afterID⟩
  · rw [hid] at hread
    cases hread
  · rw [hid] at hread
    dsimp only at hread
    generalize (if 1 ≤ id ∧ id ≤ BYTECODE_ID_STRING_LITERAL then none
      else definitions.find? fun definition => definition.id = id) = definition at hread
    split_ifs at hread
    obtain ⟨⟨length', offset'⟩, hlength, heq⟩ := Option.map_eq_some_iff.mp hread
    cases heq
    unfold getContentLength at hlength
    rcases hfirst : bytecode[afterID]? with _ | first
    · rw [hfirst] at hlength
      cases hlength
    · have hsmall := hlow first (List.mem_of_getElem? hfirst)
      rw [hfirst] at hlength
      dsimp only at hlength
      rw [if_neg fun hhigh => absurd ((high_bit_iff first).mp hhigh) (Nat.not_le.mpr hsmall)]
        at hlength
      cases hlength
      rw [UInt8.toNat_toUInt64]
      exact hsmall

/-- A literal of one byte. -/
theorem short_literal_decompiles_safely :
    DecompilesSafely Gridnet.sha256 [] [5, 1, 65] := by
  refine (decompilesSafely_iff Gridnet.sha256 [] (by simp)).mpr fun st offset length _ hread => ?_
  have hlength := contentRead_of_low_bytes (by decide +kernel) hread
  have hoffset := contentRead_offset hread
  rw [List.length_cons, List.length_cons, List.length_cons, List.length_nil] at hoffset
  omega

/-- A literal whose eight bytes of length are all ones: its slice would end before it begins. -/
theorem huge_literal_out_of_bounds :
    decompile Gridnet.sha256 [] (5 :: 0x88 :: List.replicate 8 255) = .error .outOfBounds ∧
      ¬ DecompilesSafely Gridnet.sha256 [] (5 :: 0x88 :: List.replicate 8 255) := by
  have hfault : decompile Gridnet.sha256 [] (5 :: 0x88 :: List.replicate 8 255) = .error .outOfBounds := by
    decide +kernel
  exact ⟨hfault, fun hsafe => hsafe.inside hfault⟩

end Gridnet
