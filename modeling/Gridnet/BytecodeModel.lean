import Gridnet.TextCodecs

/-! The standalone GridScript compiler: `compile` turns the words of a script into opcodes,
`compileWithHeader` puts the version and a hash over the keywords before them, `decompile` turns
bytecode back into words. -/

namespace Gridnet

/-- What the compiler reads of a keyword. -/
structure Definition where
  name : Bytes
  id : UInt64
  extType : Bool := false
  inlineParamCount : UInt32 := 0
  hasBase58BinaryInLineParams : Bool := false
  hasBase64BinaryInLineParams : Bool := false
  deriving DecidableEq, Repr

def BYTECODE_ID_UNSIGNED : UInt64 := 1
def BYTECODE_ID_SIGNED : UInt64 := 2
def BYTECODE_ID_DOUBLE : UInt64 := 3
def BYTECODE_ID_USER_OPCODE : UInt64 := 4
def BYTECODE_ID_STRING_LITERAL : UInt64 := 5

def GRIDSCRIPT_IMAGE_INIT_STRING : Bytes := ascii "GRIDSCRIPT_V2_KEYWORD_IMAGE"

/-- `std::isspace`. -/
def isSpace (c : UInt8) : Bool := c = 32 || (9 ≤ c && c ≤ 13)

/-- `::tolower`. -/
def toLower (c : UInt8) : UInt8 := if 65 ≤ c && c ≤ 90 then c + 32 else c

def isDigit (c : UInt8) : Bool := 48 ≤ c && c ≤ 57

def isAlnum (c : UInt8) : Bool := isDigit c || (65 ≤ c && c ≤ 90) || (97 ≤ c && c ≤ 122)

/-- The words of a script: the matches of `\S+`. -/
def scriptWords (code : Bytes) : List Bytes := (code.splitOnP isSpace).filter (· ≠ [])

/-- `^\d+$` -/
def unsignedNrR (token : Bytes) : Bool := token ≠ [] && token.all isDigit

/-- `^\-\d+$` -/
def signedNrR : Bytes → Bool
  | [] => false
  | c :: digits => c = 45 && unsignedNrR digits

/-- `^[\-\+][a-zA-Z0-9]+$` -/
def flagR : Bytes → Bool
  | [] => false
  | c :: name => (c = 45 || c = 43) && name ≠ [] && name.all isAlnum

/-- The number a string of digits stands for. -/
def digitsValue (digits : Bytes) : ℕ :=
  digits.foldl (fun n c => 10 * n + (c.toNat - 48)) 0

/-- `std::stoull`; `none` where it throws. -/
def stoull (token : Bytes) : Option ℕ :=
  if digitsValue token < 2 ^ 64 then some (digitsValue token) else none

/-- The magnitude of `std::stoll` on a number with a minus sign; `none` where it throws. -/
def stollNegated (digits : Bytes) : Option ℕ :=
  if digitsValue digits ≤ 2 ^ 63 then some (digitsValue digits) else none

/-- `std::to_string`. -/
def decimal (n : ℕ) : Bytes :=
  if n = 0 then [48] else ((Nat.digits 10 n).reverse).map fun d => UInt8.ofNat (d + 48)

/-- The bytes of a number, most significant first, without leading zeros; zero is one zero byte. -/
def numBytes (n : ℕ) : Bytes := (BigIntToBytes n).reverse

/-- Adding one to a number whose least significant byte comes first. -/
def incremented : Bytes → Bytes
  | [] => []
  | b :: bytes => if b + 1 ≠ 0 then (b + 1) :: bytes else 0 :: incremented bytes

/-- The two's complement of a number in as many bytes as it has. -/
def twosComplement (bytes : Bytes) : Bytes :=
  (incremented ((bytes.map fun b => ~~~b).reverse)).reverse

def idBytes (id : UInt64) : Bytes :=
  if 127 < id then [((id >>> 8) ||| 0x80).toUInt8, (id &&& 0xFF).toUInt8] else [id.toUInt8]

/-- `setIDBits`: an ID of more than 15 bits leaves the opcode as it was. -/
def setIDBits (mCurrentOpCode : Bytes) (id : UInt64) : Bytes :=
  if 0x7FFF < id then mCurrentOpCode else idBytes id

/-- What `setLengthBits` writes. -/
def lengthBits (size : ℕ) : Bytes :=
  if size ≤ 127 then [UInt8.ofNat size]
  else (0x80 ||| UInt8.ofNat (numBytes size).length) :: numBytes size

/-- `setLengthBits` followed by `setContentBits`. -/
def setContent (mCurrentOpCode content : Bytes) : Bytes :=
  mCurrentOpCode ++ lengthBits content.length ++ content

/-- The variables of `compile`. -/
structure CompileState where
  mCompiledByteCode : Bytes := []
  mCurrentOpCode : Bytes := []
  mCurrentImageHash : Bytes32
  activeDefinition : Option Definition := none
  waitingForParams : Int := 0
  flagPrefix : Bytes := []

/-- The opcode is complete. -/
def CompileState.commit (st : CompileState) (opcode : Bytes) : CompileState :=
  { st with mCompiledByteCode := st.mCompiledByteCode ++ opcode, mCurrentOpCode := [] }

section Compiler

variable (sha256 : Bytes → Bytes32) (definitions : List Definition)

def initializeKeywordHash : Bytes32 := sha256 GRIDSCRIPT_IMAGE_INIT_STRING

def updateKeywordHash (mCurrentImageHash : Bytes32) (keywordName : Bytes) : Bytes32 :=
  sha256 (mCurrentImageHash.1 ++ keywordName)

/-- The hash after a keyword: only codewords enter it, and only from version 2 on. -/
def hashKeyword (mBytecodeVersion : ℕ) (hash : Bytes32) (definition : Definition) : Bytes32 :=
  if 2 ≤ mBytecodeVersion ∧ BYTECODE_ID_STRING_LITERAL < definition.id then
    updateKeywordHash sha256 hash definition.name
  else hash

/-- The first definition of that name, upper and lower case alike. -/
def findDefinition (token : Bytes) : Option Definition :=
  definitions.find? fun definition => definition.name.map toLower = token.map toLower

/-- The bytes of an inline parameter; `none` where the text is not valid. -/
def paramBytes (definition : Definition) (token : Bytes) : Option Bytes :=
  if definition.hasBase58BinaryInLineParams then base58CheckDecode sha256 token
  else if definition.hasBase64BinaryInLineParams then base64CheckDecode sha256 token
  else some token

/-- A word where an inline parameter of `definition` is expected. -/
def compileParam (st : CompileState) (definition : Definition) (token : Bytes) :
    Option CompileState :=
  if flagR token && (definition.hasBase58BinaryInLineParams ||
      definition.hasBase64BinaryInLineParams) then
    some { st with flagPrefix := token ++ [32] }
  else
    (paramBytes sha256 definition token).map fun bytes =>
      let st' := st.commit (setContent st.mCurrentOpCode (st.flagPrefix ++ bytes))
      { st' with
        flagPrefix := []
        waitingForParams := st.waitingForParams - 1
        activeDefinition := if st.waitingForParams - 1 = 0 then none else st.activeDefinition }

/-- A word that is a keyword. -/
def compileKeyword (mBytecodeVersion : ℕ) (st : CompileState) (definition : Definition) :
    CompileState :=
  let opcode := setIDBits st.mCurrentOpCode definition.id
  let hash := hashKeyword sha256 mBytecodeVersion st.mCurrentImageHash definition
  if definition.extType && 0 < definition.inlineParamCount then
    { st with
      mCurrentOpCode := opcode
      mCurrentImageHash := hash
      activeDefinition := some definition
      waitingForParams := definition.inlineParamCount.toInt32.toInt }
  else { st.commit opcode with mCurrentImageHash := hash, activeDefinition := none }

/-- A word that is no keyword: a number or a literal. -/
def compileLiteral (st : CompileState) (token : Bytes) : Option CompileState :=
  let st := { st with activeDefinition := none }
  if unsignedNrR token then
    (stoull token).map fun num =>
      st.commit (setContent (setIDBits st.mCurrentOpCode BYTECODE_ID_UNSIGNED) (numBytes num))
  else if signedNrR token then
    (stollNegated token.tail).map fun absVal =>
      let bytes := if absVal = 0 then numBytes 0 else twosComplement (numBytes absVal)
      st.commit (setContent (setIDBits st.mCurrentOpCode BYTECODE_ID_SIGNED) bytes)
  else
    some (st.commit (setContent (setIDBits st.mCurrentOpCode BYTECODE_ID_STRING_LITERAL) token))

/-- The body of the loop of `compile`. -/
def compileWord (mBytecodeVersion : ℕ) (st : CompileState) (token : Bytes) : Option CompileState :=
  match st.activeDefinition with
  | some definition =>
      if 0 < st.waitingForParams then compileParam sha256 st definition token
      else
        match findDefinition definitions token with
        | some definition => some (compileKeyword sha256 mBytecodeVersion st definition)
        | none => compileLiteral st token
  | none =>
      match findDefinition definitions token with
      | some definition => some (compileKeyword sha256 mBytecodeVersion st definition)
      | none => compileLiteral st token

/-- `compile`, with the hash it leaves behind; `none` where it answers `false` or throws. Before
version 2 the hash is not looked at. -/
def compile (mBytecodeVersion : ℕ) (code : Bytes) : Option (Bytes × Bytes32) :=
  ((scriptWords code).foldlM (compileWord sha256 definitions mBytecodeVersion)
    { mCurrentImageHash := initializeKeywordHash sha256 }).bind fun st =>
      if st.mCompiledByteCode = [] then none
      else some (st.mCompiledByteCode, st.mCurrentImageHash)

def compileWithHeader (mBytecodeVersion : ℕ) (sourceCode : Bytes) : Option Bytes :=
  (compile sha256 definitions mBytecodeVersion sourceCode).map fun (result, hash) =>
    if 2 ≤ mBytecodeVersion then UInt8.ofNat (192 + mBytecodeVersion) :: hash.1 ++ result
    else result

end Compiler

/-- `getIDBits`: the ID at an offset and the offset after it. -/
def getIDBits (mCompiledByteCode : Bytes) (mCurrentOffset : ℕ) : Option (UInt64 × ℕ) :=
  match mCompiledByteCode[mCurrentOffset]? with
  | none => none
  | some firstByte =>
      if firstByte &&& 0x80 ≠ 0 then
        match mCompiledByteCode[mCurrentOffset + 1]? with
        | none => none
        | some secondByte =>
            some (((firstByte &&& 0x7F).toUInt64 <<< 8) ||| secondByte.toUInt64, mCurrentOffset + 2)
      else some (firstByte.toUInt64, mCurrentOffset + 1)

/-- A number read most significant byte first, in 64 bits. -/
def readNumber (bytes : Bytes) : UInt64 :=
  bytes.foldl (fun n b => (n <<< 8) ||| b.toUInt64) 0

/-- `getContentLength`: the length at an offset and the offset after it. -/
def getContentLength (mCompiledByteCode : Bytes) (mCurrentOffset : ℕ) : Option (UInt64 × ℕ) :=
  match mCompiledByteCode[mCurrentOffset]? with
  | none => none
  | some firstByte =>
      if firstByte &&& 0x80 ≠ 0 then
        let numBytes := (firstByte &&& 0x7F).toNat
        if mCompiledByteCode.length < mCurrentOffset + 1 + numBytes then none
        else
          some (readNumber ((mCompiledByteCode.drop (mCurrentOffset + 1)).take numBytes),
            mCurrentOffset + 1 + numBytes)
      else some (firstByte.toUInt64, mCurrentOffset + 1)

/-- Why `decompile` ends without a script: it answers `false`, or it reads a slice that runs beyond
the buffer. -/
inductive DecodeError where
  | rejected
  | outOfBounds
  deriving DecidableEq, Repr

/-- `getContentBits`; the sum in its check wraps around. -/
def getContentBits (mCompiledByteCode : Bytes) (mCurrentOffset : ℕ) (length : UInt64) :
    Except DecodeError Bytes :=
  if mCompiledByteCode.length < (mCurrentOffset + length.toNat) % 2 ^ 64 then .error .rejected
  else if mCompiledByteCode.length < mCurrentOffset + length.toNat then .error .outOfBounds
  else .ok ((mCompiledByteCode.drop mCurrentOffset).take length.toNat)

/-- The position of the blank after a flag at the beginning of binary content; 0 without a flag. -/
def spacePos (mBytecodeVersion : ℕ) (content : Bytes) : ℕ :=
  match content with
  | [] => 0
  | c :: rest =>
      if 2 ≤ mBytecodeVersion ∧ 3 < content.length ∧ (c = 45 ∨ c = 43) then
        match (rest.take 63).findIdx? (· = 32) with
        | none => 0
        | some i => if (rest.take i).all isAlnum then i + 1 else 0
      else 0

/-- The variables of the loop of `decompile`. -/
structure DecompileState where
  mCurrentOffset : ℕ
  resultWords : List Bytes := []
  mCurrentImageHash : Bytes32
  deriving DecidableEq

/-- The words one after another, a blank between them; empty words are left out. -/
def joinWords (resultWords : List Bytes) : Bytes :=
  ((resultWords.filter (· ≠ [])).intersperse [32]).flatten

section Decompiler

variable (sha256 : Bytes → Bytes32) (definitions : List Definition)

/-- The text of an inline parameter. -/
def paramText (mBytecodeVersion : ℕ) (definition : Definition) (content : Bytes) : Bytes :=
  if definition.hasBase58BinaryInLineParams || definition.hasBase64BinaryInLineParams then
    let pos := spacePos mBytecodeVersion content
    let flagPrefix := if 0 < pos then content.take (pos + 1) else []
    let binaryContent := if 0 < pos then content.drop (pos + 1) else content
    flagPrefix ++
      if definition.hasBase58BinaryInLineParams then base58CheckEncode sha256 binaryContent
      else base64CheckEncode sha256 binaryContent
  else content

/-- The words an opcode with content stands for, and the hash after it. A user defined opcode is
named after its number. -/
def contentWords (mBytecodeVersion : ℕ) (byteCodeID : UInt64) (definition : Option Definition)
    (content : Bytes) (hash : Bytes32) : Option (List Bytes × Bytes32) :=
  if byteCodeID = BYTECODE_ID_UNSIGNED ∨ byteCodeID = BYTECODE_ID_SIGNED ∨
      byteCodeID = BYTECODE_ID_DOUBLE then
    some ([decimal (readNumber content).toNat], hash)
  else if byteCodeID = BYTECODE_ID_USER_OPCODE then
    some ([118 :: decimal (readNumber content).toNat], hash)
  else
    match definition with
    | none => if content = [] then none else some ([content], hash)
    | some definition =>
        if content ≠ [] then
          some ([definition.name, paramText sha256 mBytecodeVersion definition content],
            hashKeyword sha256 mBytecodeVersion hash definition)
        else if 2 ≤ mBytecodeVersion then
          some ([definition.name], hashKeyword sha256 mBytecodeVersion hash definition)
        else none

/-- The body of the loop of `decompile`. -/
def decodeOpcode (mBytecodeVersion : ℕ) (mCompiledByteCode : Bytes) (st : DecompileState) :
    Except DecodeError DecompileState :=
  match getIDBits mCompiledByteCode st.mCurrentOffset with
  | none => .error .rejected
  | some (byteCodeID, offset) =>
      let special := 1 ≤ byteCodeID ∧ byteCodeID ≤ BYTECODE_ID_STRING_LITERAL
      let definition :=
        if special then none else definitions.find? fun definition => definition.id = byteCodeID
      if special ∨ definition.any (fun definition => definition.extType) = true then
        match getContentLength mCompiledByteCode offset with
        | none => .error .rejected
        | some (contentLength, offset) =>
            match getContentBits mCompiledByteCode offset contentLength with
            | .error e => .error e
            | .ok content =>
                match contentWords sha256 mBytecodeVersion byteCodeID definition content
                    st.mCurrentImageHash with
                | none => .error .rejected
                | some (words, hash) =>
                    .ok ⟨offset + contentLength.toNat, st.resultWords ++ words, hash⟩
      else
        match definition with
        | none => .error .rejected
        | some definition =>
            .ok ⟨offset, st.resultWords ++ [definition.name],
              hashKeyword sha256 mBytecodeVersion st.mCurrentImageHash definition⟩

/-- The loop of `decompile`; every turn moves the offset on, so there are no more turns than
bytes. -/
def decodeLoop (mBytecodeVersion : ℕ) (mCompiledByteCode : Bytes) :
    ℕ → DecompileState → Except DecodeError DecompileState
  | 0, st => .ok st
  | turns + 1, st =>
      if st.mCurrentOffset < mCompiledByteCode.length then
        match decodeOpcode sha256 definitions mBytecodeVersion mCompiledByteCode st with
        | .error e => .error e
        | .ok st => decodeLoop mBytecodeVersion mCompiledByteCode turns st
      else .ok st

/-- The script, or the reason why there is none. -/
def decompile (bytecode : Bytes) : Except DecodeError Bytes :=
  match bytecode with
  | [] => .error .rejected
  | marker :: _ =>
      let mBytecodeVersion := if 192 ≤ marker then 2 else 1
      if mBytecodeVersion = 2 ∧ bytecode.length < 33 then .error .rejected
      else
        let start := if mBytecodeVersion = 2 then 33 else 0
        match decodeLoop sha256 definitions mBytecodeVersion bytecode bytecode.length
            { mCurrentOffset := start, mCurrentImageHash := initializeKeywordHash sha256 } with
        | .error e => .error e
        | .ok st =>
            if mBytecodeVersion = 2 ∧ st.mCurrentImageHash.1 ≠ (bytecode.drop 1).take 32 then
              .error .rejected
            else if joinWords st.resultWords = [] then .error .rejected
            else .ok (joinWords st.resultWords)

end Decompiler

end Gridnet
