import Gridnet.BytecodeRoundTrip
import Gridnet.ReferenceCompiler

/-! The standalone compiler and the reference compiler over the same script. Their loops are followed
word by word: as long as both take a word for the same thing and write a length whose bytes read the
same in both orders, they emit the same bytes. -/

namespace Gridnet

/-- The keyword takes parameters. -/
def Definition.takesParams (definition : Definition) : Bool :=
  definition.extType && 0 < definition.inlineParamCount

/-- Where a compiler is between two words: before a new item, or where a keyword waits for its
parameter, after a flag or not. -/
inductive CompilePhase where
  | between
  | waiting (definition : Definition) (flag : Option Bytes)

/-- The keywords of a script that both compilers read alike, from a phase on; `none` where they part.
They part at a word that is not spelled as a keyword of the table, at a keyword that asks for several
parameters or misses its own, at a flag where no binary text is expected or after another flag, and
at content whose length has other bytes read backwards. -/
def readInStep (sha256 : Bytes → Bytes32) (definitions : List Definition) :
    CompilePhase → List Bytes → Option (List Definition)
  | .between, [] => some []
  | .waiting _ _, [] => none
  | .between, token :: tokens =>
      match findDefinition definitions token with
      | none => none
      | some definition =>
          if GridScriptCompiler.findDefinition definitions token = some definition ∧
              definition.id.toNat ≤ 0x7FFF then
            if definition.takesParams = true then
              if definition.inlineParamCount = 1 then
                (readInStep sha256 definitions (.waiting definition none) tokens).map
                  (definition :: ·)
              else none
            else (readInStep sha256 definitions .between tokens).map (definition :: ·)
          else none
  | .waiting definition flag, token :: tokens =>
      if flagR token = true then
        if flag = none ∧ definition.isBinary = true then
          readInStep sha256 definitions (.waiting definition (some token)) tokens
        else none
      else
        let content := (InlineParam.mk flag token).content sha256 definition
        if numBytes content.length = BigIntToBytes content.length then
          readInStep sha256 definitions .between tokens
        else none

namespace GridScriptCompiler

/-- Both compilers write a length alike exactly when its bytes read the same in both orders. -/
theorem lengthBits_eq_iff (len : ℕ) :
    Gridnet.lengthBits len = lengthBits len ↔ numBytes len = BigIntToBytes len := by
  unfold Gridnet.lengthBits lengthBits
  split_ifs with hshort
  · have hone := BigIntToBytes_length_eq_one.mpr (show len < 256 by omega)
    obtain ⟨b, hb⟩ := List.length_eq_one_iff.mp hone
    simp [numBytes, hb]
  · have hcount : (numBytes len).length = (BigIntToBytes len).length := List.length_reverse
    rw [hcount, UInt8.or_comm]
    simp

end GridScriptCompiler

section Step

variable {sha256 : Bytes → Bytes32} {definitions : List Definition}

/-- The standalone compiler in a phase. -/
def CompileState.At (st : CompileState) : CompilePhase → Prop
  | .between => st.Between
  | .waiting definition flag =>
      st.activeDefinition = some definition ∧ st.waitingForParams = 1 ∧
        st.mCurrentOpCode = idBytes definition.id ∧
        st.flagPrefix = flag.elim [] (fun flag => flag ++ [32]) ∧
        (flag ≠ none → definition.isBinary = true)

/-- The reference compiler in a phase. -/
def GridScriptCompiler.CompileState.At (st : GridScriptCompiler.CompileState) :
    CompilePhase → Prop
  | .between => st.waitingForParam = false ∧ st.pendingFlag = none
  | .waiting definition flag =>
      st.activeDefinition = some definition ∧ st.waitingForParam = true ∧
        st.mCurrentOpCode = idBytes definition.id ∧ st.pendingFlag = flag ∧
        st.paramsTraversed = 0 ∧ st.requiredParams = 1 ∧ st.paremetersVec = [] ∧
        ∀ token ∈ flag, flagR token = true

/-- Flags have no blanks in them, and are neither empty nor a sign alone. -/
theorem flagR_chars {flag : Bytes} (hflag : flagR flag = true) :
    2 ≤ flag.length ∧ (flag.head? = some 45 ∨ flag.head? = some 43) ∧ 32 ∉ flag := by
  cases flag with
  | nil => cases hflag
  | cons c name =>
      simp only [flagR, Bool.and_eq_true, Bool.or_eq_true, decide_eq_true_eq, List.all_eq_true]
        at hflag
      obtain ⟨⟨hsign, hname⟩, hchars⟩ := hflag
      refine ⟨?_, by simpa using hsign, ?_⟩
      · exact Nat.succ_le_succ (List.length_pos_iff.mpr hname)
      · intro hmem
        obtain rfl | hmem := List.mem_cons.mp hmem
        · exact absurd hsign (by decide)
        · exact absurd (hchars 32 hmem) (by decide)

namespace GridScriptCompiler

/-- The bytes of a text, its flag left aside. -/
def textBytes (sha256 : Bytes → Bytes32) (definition : Definition) (token : Bytes) :
    Option Bytes :=
  if definition.hasBase58BinaryInLineParams then Tools.base58CheckDecode sha256 token
  else if definition.hasBase64BinaryInLineParams then Tools.base64CheckDecode sha256 token
  else some token

/-- The flag in front of a parameter is split off as it was put there. -/
theorem paramBytes_eq (definition : Definition) {flag : Option Bytes} {token : Bytes}
    (hflag : ∀ token ∈ flag, flagR token = true) (htoken : 32 ∉ token) :
    paramBytes sha256 definition (flag.elim token fun flag => flag ++ 32 :: token) =
      (textBytes sha256 definition token).map
        (flag.elim [] (fun flag => flag ++ [32]) ++ ·) := by
  cases flag with
  | none =>
      unfold paramBytes textBytes
      simp [htoken]
  | some flag =>
      obtain ⟨hlength, hsign, hchars⟩ := flagR_chars (hflag flag rfl)
      have hlong : 2 < (flag ++ 32 :: token).length := by
        rw [List.length_append, List.length_cons]
        omega
      have hhead : (flag ++ 32 :: token).head? = some 45 ∨
          (flag ++ 32 :: token).head? = some 43 := by
        cases flag with
        | nil => cases Nat.not_succ_le_zero _ hlength
        | cons c name => simpa using hsign
      have hall : ∀ c ∈ flag, decide (c ≠ 32) = true := by
        intro c hc
        exact decide_eq_true fun hblank => hchars (hblank ▸ hc)
      have htake : (flag ++ 32 :: token).takeWhile (· ≠ 32) = flag := by
        rw [List.takeWhile_append_of_pos hall]
        simp
      have hdrop : (flag ++ 32 :: token).dropWhile (· ≠ 32) = 32 :: token := by
        rw [List.dropWhile_append_of_pos hall]
        simp
      have hhas : (decide (2 < (flag ++ 32 :: token).length) &&
          (decide ((flag ++ 32 :: token).head? = some 45) ||
            decide ((flag ++ 32 :: token).head? = some 43)) &&
          (flag ++ 32 :: token).contains 32) = true := by
        simp only [Bool.and_eq_true, Bool.or_eq_true, decide_eq_true_eq]
        exact ⟨⟨hlong, hhead⟩, by simp⟩
      change paramBytes sha256 definition (flag ++ 32 :: token) =
        (textBytes sha256 definition token).map ((flag ++ [32]) ++ ·)
      unfold paramBytes textBytes
      dsimp only
      rw [hhas, htake, hdrop]
      simp only [if_true, List.tail_cons]
      split_ifs
      · rfl
      · rfl
      · simp

/-- The texts both compilers accept are the same bytes to them. -/
theorem textBytes_eq {definition : Definition} {token bytes bytes' : Bytes}
    (hbytes : Gridnet.paramBytes sha256 definition token = some bytes)
    (hbytes' : textBytes sha256 definition token = some bytes') : bytes = bytes' := by
  unfold Gridnet.paramBytes at hbytes
  unfold textBytes at hbytes'
  split_ifs at hbytes hbytes' with h58 h64
  · exact Tools.base58CheckDecode_eq hbytes hbytes'
  · exact Tools.base64CheckDecode_eq hbytes hbytes'
  · exact Option.some.inj (hbytes.symm.trans hbytes')

end GridScriptCompiler

/-! ### The standalone compiler -/

variable (sha256) in
theorem compileKeyword_primitive {st : CompileState} (hst : st.Between) {definition : Definition}
    (hid : definition.id.toNat ≤ 0x7FFF) (hprimitive : definition.takesParams = false) :
    (compileKeyword sha256 2 st definition).Between ∧
      (compileKeyword sha256 2 st definition).mCompiledByteCode =
        st.mCompiledByteCode ++ idBytes definition.id := by
  have hkeyword : compileKeyword sha256 2 st definition =
      { st.commit (idBytes definition.id) with
        mCurrentImageHash := hashKeyword sha256 2 st.mCurrentImageHash definition
        activeDefinition := none } := by
    rw [compileKeyword, ← Definition.takesParams, if_neg (by simp [hprimitive]), setIDBits_eq _ hid]
  rw [hkeyword]
  exact ⟨⟨rfl, rfl, hst.flagPrefix⟩, rfl⟩

variable (sha256) in
theorem compileKeyword_waiting {st : CompileState} (hst : st.Between) {definition : Definition}
    (hid : definition.id.toNat ≤ 0x7FFF) (htakes : definition.takesParams = true)
    (hone : definition.inlineParamCount = 1) :
    (compileKeyword sha256 2 st definition).At (.waiting definition none) ∧
      (compileKeyword sha256 2 st definition).mCompiledByteCode = st.mCompiledByteCode := by
  have hkeyword : compileKeyword sha256 2 st definition =
      { st with
        mCurrentOpCode := idBytes definition.id
        mCurrentImageHash := hashKeyword sha256 2 st.mCurrentImageHash definition
        activeDefinition := some definition
        waitingForParams := 1 } := by
    rw [compileKeyword, ← Definition.takesParams, if_pos htakes, setIDBits_eq _ hid, hone]
    rfl
  rw [hkeyword]
  exact ⟨⟨rfl, rfl, rfl, hst.flagPrefix, fun h => absurd rfl h⟩, rfl⟩

/-- The keyword hash moves at keywords only. -/
theorem compileKeyword_hash (st : CompileState) (definition : Definition) :
    (compileKeyword sha256 2 st definition).mCurrentImageHash =
      hashKeyword sha256 2 st.mCurrentImageHash definition := by
  unfold compileKeyword
  dsimp only
  split_ifs <;> rfl

/-- A parameter completes the opcode. -/
theorem CompileState.At.compileWord_param {st : CompileState} {definition : Definition}
    {flag : Option Bytes} (hst : st.At (.waiting definition flag)) {token : Bytes}
    (hplain : flagR token = true → definition.isBinary = false) {st' : CompileState}
    (hword : compileWord sha256 definitions 2 st token = some st') :
    ∃ bytes, paramBytes sha256 definition token = some bytes ∧ st'.Between ∧
      st'.mCompiledByteCode = st.mCompiledByteCode ++ setContent (idBytes definition.id)
        ((InlineParam.mk flag token).content sha256 definition) ∧
      st'.mCurrentImageHash = st.mCurrentImageHash := by
  obtain ⟨hactive, hwaiting, hopcode, hprefix, -⟩ := hst
  rw [compileWord_waiting hactive (by rw [hwaiting]; decide)] at hword
  have hnot : ¬ (flagR token && (definition.hasBase58BinaryInLineParams ||
      definition.hasBase64BinaryInLineParams)) = true := by
    rw [← Definition.isBinary, Bool.and_eq_true]
    rintro ⟨hflag, hbinary⟩
    exact absurd (hbinary.symm.trans (hplain hflag)) (by decide)
  rw [compileParam, if_neg hnot] at hword
  obtain ⟨bytes, hbytes, rfl⟩ := Option.map_eq_some_iff.mp hword
  refine ⟨bytes, hbytes, ?_, ?_, rfl⟩
  · exact ⟨by simp [hwaiting], rfl, rfl⟩
  · simp [CompileState.commit, InlineParam.content, hbytes, hopcode, hprefix]

/-- A flag before binary text is kept. -/
theorem CompileState.At.compileWord_flag {st : CompileState} {definition : Definition}
    {flag : Option Bytes} (hst : st.At (.waiting definition flag)) {token : Bytes}
    (hflag : flagR token = true) (hbinary : definition.isBinary = true) {st' : CompileState}
    (hword : compileWord sha256 definitions 2 st token = some st') :
    st'.At (.waiting definition (some token)) ∧
      st'.mCompiledByteCode = st.mCompiledByteCode ∧
      st'.mCurrentImageHash = st.mCurrentImageHash := by
  obtain ⟨hactive, hwaiting, hopcode, hprefix, -⟩ := hst
  rw [compileWord_waiting hactive (by rw [hwaiting]; decide),
    compileParam_flag hbinary hflag] at hword
  obtain rfl := Option.some.inj hword
  exact ⟨⟨hactive, hwaiting, hopcode, rfl, fun _ => hbinary⟩, rfl, rfl⟩

/-! ### The reference compiler -/

namespace GridScriptCompiler

theorem compileWord_between {st : CompileState} (hst : st.waitingForParam = false)
    (token : Bytes) :
    compileWord sha256 definitions st token =
      match findDefinition definitions token with
      | some definition => some (compileKeyword sha256 st definition)
      | none => some { st with activeDefinition := none } := by
  unfold compileWord
  exact if_neg (by simp [hst])

theorem compileKeyword_hash (st : CompileState) (definition : Definition) :
    (compileKeyword sha256 st definition).mKeywordImageHash =
      hashKeyword sha256 st.mKeywordImageHash definition := by
  unfold compileKeyword
  dsimp only
  split_ifs <;> rfl

variable (sha256) in
theorem compileKeyword_primitive {st : CompileState} (hst : st.At .between)
    {definition : Definition} (hprimitive : definition.takesParams = false) :
    (compileKeyword sha256 st definition).At .between ∧
      (compileKeyword sha256 st definition).byteCode = st.byteCode ++ idBytes definition.id := by
  have hnot : ¬ (definition.extType && 0 < definition.inlineParamCount.toInt32.toInt) = true := by
    rw [Bool.and_eq_true, decide_eq_true_eq]
    rintro ⟨hext, hcount⟩
    have hzero : definition.inlineParamCount = 0 := by
      simpa [Definition.takesParams, hext, UInt32.pos_iff_ne_zero] using hprimitive
    rw [hzero] at hcount
    exact absurd hcount (by decide)
  unfold compileKeyword
  dsimp only
  rw [if_neg hnot]
  exact ⟨⟨rfl, hst.2⟩, rfl⟩

variable (sha256) in
theorem compileKeyword_waiting {st : CompileState} (hst : st.At .between)
    {definition : Definition} (htakes : definition.takesParams = true)
    (hone : definition.inlineParamCount = 1) :
    (compileKeyword sha256 st definition).At (.waiting definition none) ∧
      (compileKeyword sha256 st definition).byteCode = st.byteCode := by
  have hkeyword : compileKeyword sha256 st definition =
      { st with
        activeDefinition := some definition
        mKeywordImageHash := hashKeyword sha256 st.mKeywordImageHash definition
        mCurrentOpCode := idBytes definition.id
        waitingForParam := true
        requiredParams := 1
        paramsTraversed := 0
        paremetersVec := [] } := by
    unfold compileKeyword
    dsimp only
    have hext : definition.extType = true := (Bool.and_eq_true_iff.mp htakes).1
    rw [if_pos (by simp [hext, hone]), hone]
    rfl
  rw [hkeyword]
  exact ⟨⟨rfl, rfl, rfl, hst.2, rfl, rfl, rfl, by simp⟩, rfl⟩

/-- A flag waits for its value, whatever the parameter is. -/
theorem CompileState.At.compileWord_flag {st : CompileState} {definition : Definition}
    (hst : st.At (.waiting definition none)) {token : Bytes} (hflag : flagR token = true)
    {st' : CompileState} (hword : compileWord sha256 definitions st token = some st') :
    st'.At (.waiting definition (some token)) ∧ st'.byteCode = st.byteCode ∧
      st'.mKeywordImageHash = st.mKeywordImageHash := by
  obtain ⟨hactive, hwaiting, hopcode, hpending, htraversed, hrequired, hvec, -⟩ := hst
  rw [compileWord, if_pos hwaiting, hactive, Option.bind_some, compileParam,
    if_pos ⟨hpending, hflag⟩] at hword
  obtain rfl := Option.some.inj hword
  exact ⟨⟨hactive, hwaiting, hopcode, rfl, htraversed, hrequired, hvec, by simpa⟩, rfl, rfl⟩

/-- A parameter completes the opcode. -/
theorem CompileState.At.compileWord_param {st : CompileState} {definition : Definition}
    {flag : Option Bytes} (hst : st.At (.waiting definition flag)) {token : Bytes}
    (htoken : 32 ∉ token) (hplain : flagR token = true → flag ≠ none) {st' : CompileState}
    (hword : compileWord sha256 definitions st token = some st') :
    ∃ bytes, textBytes sha256 definition token = some bytes ∧ st'.At .between ∧
      st'.byteCode = st.byteCode ++ setContentBits (idBytes definition.id)
        (flag.elim [] (fun flag => flag ++ [32]) ++ bytes) ∧
      st'.mKeywordImageHash = st.mKeywordImageHash := by
  obtain ⟨hactive, hwaiting, hopcode, hpending, htraversed, hrequired, hvec, hflag⟩ := hst
  have hnot : ¬ (st.pendingFlag = none ∧ flagR token = true) := by
    rintro ⟨hnone, htrue⟩
    exact hplain htrue (hpending.symm.trans hnone)
  rw [compileWord, if_pos hwaiting, hactive, Option.bind_some, compileParam, if_neg hnot,
    hpending] at hword
  dsimp only at hword
  rw [paramBytes_eq definition hflag htoken, Option.map_map] at hword
  obtain ⟨bytes, hbytes, rfl⟩ := Option.map_eq_some_iff.mp hword
  refine ⟨bytes, hbytes, ?_⟩
  have hcomplete : st.requiredParams ≤ st.paramsTraversed + 1 := by
    rw [hrequired, htraversed]
    decide
  simp only [Function.comp]
  rw [if_pos hcomplete]
  exact ⟨⟨rfl, rfl⟩, by simp [CompileState.commit, hopcode, hvec], rfl⟩

end GridScriptCompiler

/-! ### Both compilers -/

/-- What both compilers did between two pairs of states: the same bytes were emitted, and `keywords`
entered the hashes. -/
structure AdvanceAlike (sha256 : Bytes → Bytes32) (keywords : List Definition) (st st' : CompileState)
    (rst : GridScriptCompiler.CompileState) (hash' : Bytes32) (result : Bytes) : Prop where
  code : ∃ code, st'.mCompiledByteCode = st.mCompiledByteCode ++ code ∧ result = rst.byteCode ++ code
  hash : st'.mCurrentImageHash = keywords.foldl (hashKeyword sha256 2) st.mCurrentImageHash
  referenceHash :
    hash' = keywords.foldl (GridScriptCompiler.hashKeyword sha256) rst.mKeywordImageHash

theorem AdvanceAlike.trans {keywords keywords' : List Definition} {st st₁ st' : CompileState}
    {rst rst₁ : GridScriptCompiler.CompileState} {hash' : Bytes32} {result : Bytes}
    (hfirst : AdvanceAlike sha256 keywords st st₁ rst rst₁.mKeywordImageHash rst₁.byteCode)
    (hrest : AdvanceAlike sha256 keywords' st₁ st' rst₁ hash' result) :
    AdvanceAlike sha256 (keywords ++ keywords') st st' rst hash' result := by
  obtain ⟨code, hcode, hcode'⟩ := hfirst.code
  obtain ⟨more, hmore, hmore'⟩ := hrest.code
  refine ⟨⟨code ++ more, ?_, ?_⟩, ?_, ?_⟩
  · rw [hmore, hcode, List.append_assoc]
  · rw [hmore', hcode', List.append_assoc]
  · rw [hrest.hash, hfirst.hash, List.foldl_append]
  · rw [hrest.referenceHash, hfirst.referenceHash, List.foldl_append]

/-- The content of a parameter that both take. -/
theorem InlineParam.content_eq_textBytes {definition : Definition} {flag : Option Bytes}
    {token bytes bytes' : Bytes} (hbytes : paramBytes sha256 definition token = some bytes)
    (hbytes' : GridScriptCompiler.textBytes sha256 definition token = some bytes') :
    (InlineParam.mk flag token).content sha256 definition =
      flag.elim [] (fun flag => flag ++ [32]) ++ bytes' := by
  rw [InlineParam.content, hbytes, Option.getD_some, GridScriptCompiler.textBytes_eq hbytes hbytes']

/-- Both compilers at a word that is a parameter and no flag: they complete the opcode with the same
content, and each writes its length in its own order. -/
theorem param_contents {definition : Definition} {flag : Option Bytes} {st st' : CompileState}
    {rst rst' : GridScriptCompiler.CompileState} (hst : st.At (.waiting definition flag))
    (hrst : rst.At (.waiting definition flag)) {token : Bytes} (htoken : 32 ∉ token)
    (hflag : flagR token = false)
    (hword : compileWord sha256 definitions 2 st token = some st')
    (hword' : GridScriptCompiler.compileWord sha256 definitions rst token = some rst') :
    (st'.At .between ∧ rst'.At .between) ∧
      (st'.mCompiledByteCode = st.mCompiledByteCode ++ setContent (idBytes definition.id)
        ((InlineParam.mk flag token).content sha256 definition) ∧
      rst'.byteCode = rst.byteCode ++ GridScriptCompiler.setContentBits (idBytes definition.id)
        ((InlineParam.mk flag token).content sha256 definition)) ∧
      st'.mCurrentImageHash = st.mCurrentImageHash ∧
      rst'.mKeywordImageHash = rst.mKeywordImageHash := by
  have hnoflag {p : Prop} : flagR token = true → p :=
    fun htrue => absurd (hflag.symm.trans htrue) (by decide)
  obtain ⟨bytes, hbytes, hbetween, hcode, hhash⟩ := hst.compileWord_param hnoflag hword
  obtain ⟨bytes', hbytes', hbetween', hcode', hhash'⟩ :=
    hrst.compileWord_param htoken hnoflag hword'
  rw [← InlineParam.content_eq_textBytes hbytes hbytes'] at hcode'
  exact ⟨⟨hbetween, hbetween'⟩, ⟨hcode, hcode'⟩, hhash, hhash'⟩

/-- A parameter that both take, with a length that reads the same in both orders. -/
theorem advanceAlike_param {definition : Definition} {flag : Option Bytes} {st st' : CompileState}
    {rst rst' : GridScriptCompiler.CompileState} (hst : st.At (.waiting definition flag))
    (hrst : rst.At (.waiting definition flag)) {token : Bytes} (htoken : 32 ∉ token)
    (hflag : flagR token = false)
    (hword : compileWord sha256 definitions 2 st token = some st')
    (hword' : GridScriptCompiler.compileWord sha256 definitions rst token = some rst')
    (hlength : numBytes ((InlineParam.mk flag token).content sha256 definition).length =
      BigIntToBytes ((InlineParam.mk flag token).content sha256 definition).length) :
    st'.At .between ∧ rst'.At .between ∧
      AdvanceAlike sha256 [] st st' rst rst'.mKeywordImageHash rst'.byteCode := by
  obtain ⟨⟨hbetween, hbetween'⟩, ⟨hcode, hcode'⟩, hhash, hhash'⟩ :=
    param_contents hst hrst htoken hflag hword hword'
  refine ⟨hbetween, hbetween', ⟨_, hcode, ?_⟩, hhash, hhash'⟩
  rw [hcode', setContent, GridScriptCompiler.setContentBits,
    (GridScriptCompiler.lengthBits_eq_iff _).mpr hlength]

/-- One word that both read alike. -/
theorem readInStep_cons {phase : CompilePhase} {token : Bytes} {tokens : List Bytes}
    {keywords : List Definition} (htoken : 32 ∉ token)
    (hread : readInStep sha256 definitions phase (token :: tokens) = some keywords)
    {st st' : CompileState} {rst rst' : GridScriptCompiler.CompileState} (hst : st.At phase)
    (hrst : rst.At phase) (hword : compileWord sha256 definitions 2 st token = some st')
    (hword' : GridScriptCompiler.compileWord sha256 definitions rst token = some rst') :
    ∃ phase' read keywords', keywords = read ++ keywords' ∧
      readInStep sha256 definitions phase' tokens = some keywords' ∧ st'.At phase' ∧
      rst'.At phase' ∧ AdvanceAlike sha256 read st st' rst rst'.mKeywordImageHash rst'.byteCode := by
  cases phase with
  | between =>
      cases hfind : findDefinition definitions token with
      | none => simp [readInStep, hfind] at hread
      | some definition =>
          simp only [readInStep, hfind] at hread
          split_ifs at hread with hexact htakes hone
          · obtain ⟨keywords', hrest, rfl⟩ := Option.map_eq_some_iff.mp hread
            rw [compileWord_between hst, hfind] at hword
            rw [GridScriptCompiler.compileWord_between hrst.1, hexact.1] at hword'
            cases hword
            cases hword'
            obtain ⟨hat, hcode⟩ := compileKeyword_waiting sha256 hst hexact.2 htakes hone
            obtain ⟨hat', hcode'⟩ :=
              GridScriptCompiler.compileKeyword_waiting sha256 hrst htakes hone
            refine ⟨_, [definition], keywords', rfl, hrest, hat, hat', ⟨[], ?_, ?_⟩, ?_, ?_⟩
            · rw [hcode, List.append_nil]
            · rw [hcode', List.append_nil]
            · exact compileKeyword_hash st definition
            · exact GridScriptCompiler.compileKeyword_hash rst definition
          · obtain ⟨keywords', hrest, rfl⟩ := Option.map_eq_some_iff.mp hread
            rw [compileWord_between hst, hfind] at hword
            rw [GridScriptCompiler.compileWord_between hrst.1, hexact.1] at hword'
            cases hword
            cases hword'
            obtain ⟨hat, hcode⟩ := compileKeyword_primitive sha256 hst hexact.2
              (Bool.eq_false_of_not_eq_true htakes)
            obtain ⟨hat', hcode'⟩ :=
              GridScriptCompiler.compileKeyword_primitive sha256 hrst
                (Bool.eq_false_of_not_eq_true htakes)
            exact ⟨.between, [definition], keywords', rfl, hrest, hat, hat', ⟨_, hcode, hcode'⟩,
              compileKeyword_hash st definition,
              GridScriptCompiler.compileKeyword_hash rst definition⟩
  | waiting definition flag =>
      simp only [readInStep] at hread
      split_ifs at hread with hflag hfirst hlength
      · obtain ⟨rfl, hbinary⟩ := hfirst
        obtain ⟨hat, hcode, hhash⟩ := hst.compileWord_flag hflag hbinary hword
        obtain ⟨hat', hcode', hhash'⟩ := hrst.compileWord_flag hflag hword'
        refine ⟨_, [], keywords, rfl, hread, hat, hat', ⟨[], ?_, ?_⟩, hhash, hhash'⟩
        · rw [hcode, List.append_nil]
        · rw [hcode', List.append_nil]
      · obtain ⟨hat, hat', halike⟩ := advanceAlike_param hst hrst htoken
          (Bool.eq_false_of_not_eq_true hflag) hword hword' hlength
        exact ⟨_, [], keywords, rfl, hread, hat, hat', halike⟩

/-- The rest of a script that both read alike. -/
theorem foldlM_readInStep {tokens : List Bytes} (htokens : ∀ token ∈ tokens, 32 ∉ token)
    {phase : CompilePhase} {keywords : List Definition}
    (hread : readInStep sha256 definitions phase tokens = some keywords)
    {st st' : CompileState} {rst rst' : GridScriptCompiler.CompileState} (hst : st.At phase)
    (hrst : rst.At phase)
    (hrun : tokens.foldlM (compileWord sha256 definitions 2) st = some st')
    (hrun' : tokens.foldlM (GridScriptCompiler.compileWord sha256 definitions) rst = some rst') :
    AdvanceAlike sha256 keywords st st' rst rst'.mKeywordImageHash rst'.result := by
  induction tokens generalizing phase keywords st rst with
  | nil =>
      cases hrun
      cases hrun'
      cases phase with
      | waiting definition flag => simp [readInStep] at hread
      | between =>
          obtain rfl := Option.some.inj hread
          refine ⟨⟨[], (List.append_nil _).symm, ?_⟩, rfl, rfl⟩
          rw [GridScriptCompiler.CompileState.result, if_neg (by simp [hrst.1]), List.append_nil]
  | cons token tokens ih =>
      obtain ⟨htoken, htokens⟩ := List.forall_mem_cons.mp htokens
      rw [List.foldlM_cons] at hrun hrun'
      obtain ⟨st₁, hword, hrun⟩ := Option.bind_eq_some_iff.mp hrun
      obtain ⟨rst₁, hword', hrun'⟩ := Option.bind_eq_some_iff.mp hrun'
      obtain ⟨phase', read, keywords', rfl, hread, hat, hat', halike⟩ :=
        readInStep_cons htoken hread hst hrst hword hword'
      exact halike.trans (ih htokens hread hat hat' hrun hrun')

end Step

end Gridnet
