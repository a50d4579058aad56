import Gridnet.BytecodeModel
import Mathlib.Data.List.TakeWhile
import Mathlib.Tactic.GCongr
import Mathlib.Tactic.NormNum
import Mathlib.Tactic.Ring

/-! The reference compiler beside the tests of the bytecode: `Tools` and `GridScriptCompiler`. It has
its own text codecs and its own loop over the words of a script; a keyword it does not know is skipped,
and a keyword that waits for parameters at the end of the script is completed without them. -/

namespace Gridnet

namespace Tools

/-- `base58Decode`; zeros left at the front of the digits are skipped. -/
def base58Decode (encoded : Bytes) : Option Bytes :=
  if encoded = [] then none
  else
    let zeroes := (encoded.takeWhile (· = 49)).length
    let size := encoded.length * 733 / 1000 + 1
    ((encoded.drop zeroes).foldlM
      (fun b256 c => (base58Digit c).map fun digit => carryInto 58 256 size b256 digit) []).map
      fun b256 => List.replicate zeroes 0 ++ (b256.reverse.dropWhile (· = 0)).map UInt8.ofNat

/-- The loop of `base64Decode`; a character outside the alphabet ends it. -/
def decode64 : Bytes → UInt32 → Int → Option Bytes
  | [], _, _ => some []
  | c :: encoded, val, valb =>
      if c = 61 then some []
      else
        match BASE64_CHARS.findIdx? (· = c) with
        | none => none
        | some digit =>
            let val := (val <<< 6) + digit.toUInt32
            let valb := valb + 6
            if 0 ≤ valb then
              (decode64 encoded val (valb - 8)).map
                (UInt8.ofNat ((val >>> valb.toNat.toUInt32) &&& 0xFF).toNat :: ·)
            else decode64 encoded val valb

def base64Decode (encoded : Bytes) : Option Bytes := decode64 encoded 0 (-8)

/-- The payload may be empty here. -/
def dropChecksum (checksum : Bytes → Bytes32) (decoded : Bytes) : Option Bytes :=
  if decoded.length < 4 then none
  else
    let output := decoded.take (decoded.length - 4)
    if decoded.drop (decoded.length - 4) = (checksum output).1.take 4 then some output else none

variable (sha256 : Bytes → Bytes32)

def base58CheckDecode (encoded : Bytes) : Option Bytes :=
  (base58Decode encoded).bind (dropChecksum sha256)

def base64CheckDecode (encoded : Bytes) : Option Bytes :=
  (base64Decode encoded).bind (dropChecksum fun data => sha256 (sha256 data).1)

end Tools

namespace GridScriptCompiler

/-- The local `BYTECODE_ID_STRING_LITERAL` of `compile`. -/
def BYTECODE_ID_STRING_LITERAL : UInt64 := 122

/-- The variables of `compile`. `pendingFlag` is there while `waitingForFlagValue`. -/
structure CompileState where
  byteCode : Bytes := []
  mCurrentOpCode : Bytes := []
  mKeywordImageHash : Bytes32
  activeDefinition : Option Definition := none
  waitingForParam : Bool := false
  pendingFlag : Option Bytes := none
  paramsTraversed : UInt32 := 0
  requiredParams : UInt32 := 0
  paremetersVec : Bytes := []

/-- `setIDBits`: any ID is written in two bytes. -/
def setIDBits (id : UInt64) : Bytes := idBytes id

/-- The length before the content; a long one has its least significant byte first. -/
def lengthBits (len : ℕ) : Bytes :=
  if len ≤ 127 then [UInt8.ofNat len]
  else (UInt8.ofNat (BigIntToBytes len).length ||| 0x80) :: BigIntToBytes len

def setContentBits (mCurrentOpCode content : Bytes) : Bytes :=
  mCurrentOpCode ++ lengthBits content.length ++ content

/-- What `compile` does where `commandReady` is set. -/
def CompileState.commit (st : CompileState) (opcode : Bytes) : CompileState :=
  { st with
    byteCode := st.byteCode ++ opcode
    mCurrentOpCode := []
    activeDefinition := none
    waitingForParam := false
    paramsTraversed := 0
    requiredParams := 0
    paremetersVec := [] }

section Compiler

variable (sha256 : Bytes → Bytes32) (definitions : List Definition)

/-- The first definition of exactly that name. -/
def findDefinition (name : Bytes) : Option Definition :=
  definitions.find? fun definition => definition.name = name

def updateKeywordHash (mKeywordImageHash : Bytes32) (keywordName : Bytes) : Bytes32 :=
  sha256 (mKeywordImageHash.1 ++ keywordName)

/-- The hash after a keyword. -/
def hashKeyword (hash : Bytes32) (definition : Definition) : Bytes32 :=
  if BYTECODE_ID_STRING_LITERAL < definition.id then
    updateKeywordHash sha256 hash definition.name
  else hash

/-- A word that is a keyword. -/
def compileKeyword (st : CompileState) (definition : Definition) : CompileState :=
  let st := { st with
    activeDefinition := some definition
    mKeywordImageHash := hashKeyword sha256 st.mKeywordImageHash definition }
  if definition.extType && 0 < definition.inlineParamCount.toInt32.toInt then
    { st with
      mCurrentOpCode := setIDBits definition.id
      waitingForParam := true
      requiredParams := definition.inlineParamCount
      paramsTraversed := 0
      paremetersVec := [] }
  else st.commit (setIDBits definition.id)

/-- The bytes a parameter adds, once the flag in front of it is split off. -/
def paramBytes (definition : Definition) (param : Bytes) : Option Bytes :=
  let hasFlag := 2 < param.length && (param.head? = some 45 || param.head? = some 43) &&
    param.contains 32
  let flagPrefix := if hasFlag then param.takeWhile (· ≠ 32) ++ [32] else []
  let valueToProcess := if hasFlag then (param.dropWhile (· ≠ 32)).tail else param
  if definition.hasBase58BinaryInLineParams then
    (Tools.base58CheckDecode sha256 valueToProcess).map (flagPrefix ++ ·)
  else if definition.hasBase64BinaryInLineParams then
    (Tools.base64CheckDecode sha256 valueToProcess).map (flagPrefix ++ ·)
  else some param

/-- A word where an inline parameter is expected. -/
def compileParam (st : CompileState) (definition : Definition) (token : Bytes) :
    Option CompileState :=
  if st.pendingFlag = none ∧ flagR token = true then some { st with pendingFlag := some token }
  else
    let param := st.pendingFlag.elim token fun flag => flag ++ 32 :: token
    (paramBytes sha256 definition param).map fun bytes =>
      let st := { st with
        pendingFlag := none
        paramsTraversed := st.paramsTraversed + 1
        paremetersVec := st.paremetersVec ++ bytes }
      if st.requiredParams ≤ st.paramsTraversed then
        st.commit (setContentBits st.mCurrentOpCode st.paremetersVec)
      else st

/-- The body of the loop of `compile`; `none` where it answers `false`. A parameter is never expected
without an active definition. -/
def compileWord (st : CompileState) (token : Bytes) : Option CompileState :=
  if st.waitingForParam then
    st.activeDefinition.bind fun definition => compileParam sha256 st definition token
  else
    match findDefinition definitions token with
    | some definition => some (compileKeyword sha256 st definition)
    | none => some { st with activeDefinition := none }

/-- After the loop a keyword that still waits is completed. -/
def CompileState.result (st : CompileState) : Bytes :=
  if st.waitingForParam then
    st.byteCode ++ setContentBits st.mCurrentOpCode st.paremetersVec
  else st.byteCode

def initKeywordHash : Bytes32 := sha256 GRIDSCRIPT_IMAGE_INIT_STRING

/-- `compile`, with the hash it leaves behind. -/
def compile (sourceCode : Bytes) : Option (Bytes × Bytes32) :=
  ((scriptWords sourceCode).foldlM (compileWord sha256 definitions)
    { mKeywordImageHash := initKeywordHash sha256 }).map fun st =>
      (st.result, st.mKeywordImageHash)

def compileWithHeader (sourceCode : Bytes) : Option Bytes :=
  (compile sha256 definitions sourceCode).map fun (opcodes, hash) =>
    UInt8.ofNat (192 + 2) :: hash.1 ++ opcodes

end Compiler

def BASE_OPCODE_ID : UInt64 := 9

/-- A codeword of `initDefinitions`, with its index in the table of the node. -/
def codeword (index : UInt64) (name : String) (extType : Bool) (inlineParams : UInt32)
    (hasBase58 hasBase64 : Bool) : Definition :=
  { name := ascii name, id := BASE_OPCODE_ID + index, extType := extType,
    inlineParamCount := inlineParams, hasBase58BinaryInLineParams := hasBase58,
    hasBase64BinaryInLineParams := hasBase64 }

/-- The table of `initDefinitions`. -/
def initDefinitions : List Definition :=
  [codeword 0 "data64" true 1 false true,
    codeword 2 "data" true 1 false false,
    codeword 97 "getVarEx" false 0 false false,
    codeword 100 "setVarEx" false 0 false false,
    codeword 119 "xvalue" false 0 false false,
    codeword 136 "data58" true 1 true false,
    codeword 151 "echo" false 0 false false,
    codeword 156 "cd" true 1 false false,
    codeword 197 "sacrifice" true 1 false false,
    codeword 215 "regPoolEx" false 0 false false,
    codeword 292 "regPool" true 1 false true]

end GridScriptCompiler

/-! The codecs of the two compilers agree on what both accept. -/

namespace Tools

/-- With characters of the alphabet alone, both loops decode the same bytes. -/
theorem decode64_eq {encoded decoded : Bytes} {val : UInt32} {valb : Int}
    (hdecode : decode64 encoded val valb = some decoded) :
    Gridnet.decode64 encoded val valb = decoded := by
  induction encoded generalizing val valb decoded with
  | nil =>
      cases hdecode
      rfl
  | cons c encoded ih =>
      rw [decode64] at hdecode
      rw [Gridnet.decode64]
      split_ifs at hdecode ⊢ with hpad
      · cases hdecode
        rfl
      · cases hdigit : BASE64_CHARS.findIdx? (· = c) with
        | none =>
            rw [hdigit] at hdecode
            cases hdecode
        | some digit =>
            rw [hdigit] at hdecode
            dsimp only at hdecode ⊢
            split_ifs at hdecode ⊢ with hbits
            · obtain ⟨rest, hrest, rfl⟩ := Option.map_eq_some_iff.mp hdecode
              rw [ih hrest]
            · exact ih hdecode

/-- A checksum that leaves bytes over is the same in both. -/
theorem dropChecksum_eq {checksum : Bytes → Bytes32} {decoded output output' : Bytes}
    (hdrop : Gridnet.dropChecksum checksum decoded = some output)
    (hdrop' : dropChecksum checksum decoded = some output') : output = output' := by
  unfold Gridnet.dropChecksum at hdrop
  unfold dropChecksum at hdrop'
  dsimp only at hdrop hdrop'
  split_ifs at hdrop hdrop'
  exact Option.some.inj (hdrop.symm.trans hdrop')

theorem base64CheckDecode_eq {sha256 : Bytes → Bytes32} {encoded output output' : Bytes}
    (hdecode : Gridnet.base64CheckDecode sha256 encoded = some output)
    (hdecode' : base64CheckDecode sha256 encoded = some output') : output = output' := by
  obtain ⟨decoded, hloop, hdrop'⟩ := Option.bind_eq_some_iff.mp hdecode'
  have hsame : Gridnet.base64Decode encoded = decoded := decode64_eq hloop
  rw [Gridnet.base64CheckDecode, hsame] at hdecode
  exact dropChecksum_eq hdecode hdrop'

/-- Where the buffer holds the result, the inner loop turns the digits of a number into those of
`carry + factor * value`. -/
theorem carryInto_digits {factor base : ℕ} (hbase : 1 < base) (hfactor : 0 < factor) {size : ℕ}
    (value carry : ℕ) (hfits : carry + factor * value < base ^ size) :
    carryInto factor base size (Nat.digits base value) carry =
      Nat.digits base (carry + factor * value) := by
  induction size generalizing value carry with
  | zero =>
      have hnothing : carry + factor * value = 0 := by simpa using hfits
      rw [hnothing, carryInto, Nat.digits_zero]
  | succ size ih =>
      by_cases hvalue : value = 0
      · subst hvalue
        rw [Nat.digits_zero, carryInto, Nat.mul_zero, Nat.add_zero]
        split_ifs with hcarry
        · rw [hcarry, Nat.digits_zero]
        · have hrest := ih 0 (carry / base)
            (by simpa [pow_succ, Nat.div_lt_iff_lt_mul (Nat.zero_lt_of_lt hbase)] using hfits)
          rw [Nat.digits_zero, Nat.mul_zero, Nat.add_zero] at hrest
          rw [hrest, Nat.digits_def' hbase (Nat.pos_of_ne_zero hcarry)]
      · have hpos : 0 < carry + factor * value :=
          Nat.add_pos_right _ (Nat.mul_pos hfactor (Nat.pos_of_ne_zero hvalue))
        have hsplit : carry + factor * value =
            (carry + factor * (value % base)) + base * (factor * (value / base)) := by
          calc carry + factor * value
              = carry + factor * (value % base + base * (value / base)) := by rw [Nat.mod_add_div]
            _ = (carry + factor * (value % base)) + base * (factor * (value / base)) := by ring
        have hdiv : (carry + factor * value) / base =
            (carry + factor * (value % base)) / base + factor * (value / base) := by
          rw [hsplit, Nat.add_mul_div_left _ _ (Nat.zero_lt_of_lt hbase)]
        have hmod : (carry + factor * value) % base = (carry + factor * (value % base)) % base := by
          rw [hsplit, Nat.add_mul_mod_self_left]
        have hrest := ih (value / base) ((carry + factor * (value % base)) / base)
          (by rw [← hdiv, Nat.div_lt_iff_lt_mul (Nat.zero_lt_of_lt hbase)]; exact hfits)
        rw [Nat.digits_def' hbase (Nat.pos_of_ne_zero hvalue), carryInto, hrest,
          Nat.digits_def' hbase hpos, hdiv, hmod]

/-- The buffer of the decoder is long enough. -/
theorem base58_buffer (len : ℕ) : 58 ^ len * 58 < 57 * 256 ^ (len * 733 / 1000 + 1) := by
  have hsize : 52 * len + 1 ≤ 71 * (len * 733 / 1000 + 1) := by omega
  refine lt_of_pow_lt_pow_left₀ 71 (Nat.zero_le _) ?_
  calc (58 ^ len * 58) ^ 71
      = (58 ^ 71) ^ len * 58 ^ 71 := by rw [mul_pow, ← pow_mul, ← pow_mul, Nat.mul_comm len]
    _ ≤ (256 ^ 52) ^ len * 58 ^ 71 := Nat.mul_le_mul_right _ (Nat.pow_le_pow_left (by norm_num) len)
    _ < (256 ^ 52) ^ len * (57 ^ 71 * 256) := by gcongr; norm_num
    _ = 57 ^ 71 * 256 ^ (52 * len + 1) := by rw [← pow_mul, pow_succ]; ring
    _ ≤ 57 ^ 71 * 256 ^ (71 * (len * 733 / 1000 + 1)) := by gcongr; norm_num
    _ = (57 * 256 ^ (len * 733 / 1000 + 1)) ^ 71 := by rw [mul_pow, ← pow_mul, Nat.mul_comm 71]

/-- The digits of the decoder are those of a number. -/
theorem foldlM_base58 {size len : ℕ} (hsize : 58 ^ len * 58 < 57 * 256 ^ size) {text : Bytes}
    (value read : ℕ) (hlen : read + text.length ≤ len) (hvalue : 57 * value + 58 ≤ 58 ^ read * 58)
    {digits : List ℕ}
    (hfold : text.foldlM (fun b256 c => (base58Digit c).map fun digit =>
      carryInto 58 256 size b256 digit) (Nat.digits 256 value) = some digits) :
    ∃ number, digits = Nat.digits 256 number := by
  induction text generalizing value read with
  | nil => exact ⟨value, (Option.some.inj hfold).symm⟩
  | cons c text ih =>
      rw [List.foldlM_cons] at hfold
      obtain ⟨next, hnext, hrest⟩ := Option.bind_eq_some_iff.mp hfold
      obtain ⟨digit, hdigit, rfl⟩ := Option.map_eq_some_iff.mp hnext
      have hsmall : digit ≤ 58 := by
        obtain ⟨hlt, -⟩ := List.findIdx?_eq_some_iff_getElem.mp hdigit
        exact Nat.lt_succ_iff.mp hlt
      have hgrown : 57 * (digit + 58 * value) + 58 ≤ 58 ^ (read + 1) * 58 := by
        rw [pow_succ]
        omega
      rw [List.length_cons] at hlen
      have hfits : digit + 58 * value < 256 ^ size := by
        have hmono : 58 ^ (read + 1) ≤ 58 ^ len := Nat.pow_le_pow_right (by decide) (by omega)
        omega
      rw [carryInto_digits (by decide) (by decide) value digit hfits] at hrest
      exact ih _ _ (by omega) hgrown hrest

/-- No zeros are left at the front of the digits. -/
theorem base58Decode_eq (encoded : Bytes) : base58Decode encoded = Gridnet.base58Decode encoded := by
  unfold base58Decode Gridnet.base58Decode
  split_ifs with hempty
  · rfl
  · dsimp only
    cases hfold : (encoded.drop (encoded.takeWhile (· = 49)).length).foldlM
        (fun b256 c => (base58Digit c).map fun digit =>
          carryInto 58 256 (encoded.length * 733 / 1000 + 1) b256 digit) ([] : List ℕ) with
    | none => rfl
    | some digits =>
        rw [← Nat.digits_zero 256] at hfold
        obtain ⟨number, rfl⟩ := foldlM_base58 (base58_buffer encoded.length) 0 0
          (by simp) (by simp) hfold
        have hfront : (Nat.digits 256 number).reverse.dropWhile (· = 0) =
            (Nat.digits 256 number).reverse := by
          by_cases hnumber : number = 0
          · simp [hnumber]
          · rw [List.dropWhile_eq_self_iff]
            intro hpos
            have hlast := Nat.getLast_digit_ne_zero 256 hnumber
            rw [List.getLast_eq_getElem] at hlast
            simpa using hlast
        simp only [Option.map_some, hfront]

theorem base58CheckDecode_eq {sha256 : Bytes → Bytes32} {encoded output output' : Bytes}
    (hdecode : Gridnet.base58CheckDecode sha256 encoded = some output)
    (hdecode' : base58CheckDecode sha256 encoded = some output') : output = output' := by
  rw [base58CheckDecode, base58Decode_eq] at hdecode'
  obtain ⟨decoded, hloop, hdrop⟩ := Option.bind_eq_some_iff.mp hdecode
  obtain ⟨decoded', hloop', hdrop'⟩ := Option.bind_eq_some_iff.mp hdecode'
  cases hloop.symm.trans hloop'
  exact dropChecksum_eq hdrop hdrop'

end Tools

end Gridnet
