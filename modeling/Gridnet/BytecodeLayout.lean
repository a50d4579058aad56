import Gridnet.BytecodeFields
import Gridnet.ListUpdate
import Gridnet.Scripts

/-! The first half of the round trip of bytecode. An item that keeps step has an opcode of its own, and
`compile` writes the opcodes of the items one after another. -/

namespace Gridnet

variable {sha256 : Bytes → Bytes32} {definitions : List Definition}

namespace InlineParam

/-- The bytes a parameter is compiled to: its flag with a blank, and the bytes of its text. -/
def content (sha256 : Bytes → Bytes32) (definition : Definition) (param : InlineParam) : Bytes :=
  (param.flag.elim [] fun flag => flag ++ [32]) ++
    (paramBytes sha256 definition param.text).getD []

/-- The text a parameter comes back as. -/
def shown (sha256 : Bytes → Bytes32) (definition : Definition) (param : InlineParam) : Bytes :=
  paramText sha256 2 definition (param.content sha256 definition)

end InlineParam

/-- The content of the opcode of a number with a minus sign. -/
def signedContent (absVal : ℕ) : Bytes :=
  if absVal = 0 then numBytes 0 else twosComplement (numBytes absVal)

namespace ScriptItem

/-- An item whose opcode is read as one: a keyword of extended type comes with exactly one of the
parameters it asks for, and binary text is not taken for a flag. -/
def InStep : ScriptItem → Prop
  | keyword definition _ params =>
      definition.extType = true → 0 < definition.inlineParamCount.toInt32.toInt ∧
        ∃ param, params = [param] ∧ (definition.isBinary = true → flagR param.text = false)
  | _ => True

/-- A keyword that waits for parameters and has none. -/
def Dropped : ScriptItem → Prop
  | keyword definition _ params =>
      definition.extType = true ∧ 0 < definition.inlineParamCount ∧ params = []
  | _ => False

/-- The opcode of an item. -/
def encode (sha256 : Bytes → Bytes32) : ScriptItem → Bytes
  | keyword definition _ params =>
      if definition.extType then
        setContent (idBytes definition.id)
          (params.flatMap fun param => param.content sha256 definition)
      else idBytes definition.id
  | unsignedNr digits => setContent (idBytes BYTECODE_ID_UNSIGNED) (numBytes (digitsValue digits))
  | signedNr digits =>
      setContent (idBytes BYTECODE_ID_SIGNED) (signedContent (digitsValue digits))
  | word token => setContent (idBytes BYTECODE_ID_STRING_LITERAL) token

/-- The words an opcode comes back as. -/
def shown (sha256 : Bytes → Bytes32) : ScriptItem → List Bytes
  | keyword definition _ params =>
      definition.name :: params.map fun param => param.shown sha256 definition
  | unsignedNr digits => [decimal (digitsValue digits)]
  | signedNr digits => [decimal (readNumber (signedContent (digitsValue digits))).toNat]
  | word token => [token]

/-- The keyword hash after an item. -/
def hashed (sha256 : Bytes → Bytes32) (hash : Bytes32) : ScriptItem → Bytes32
  | keyword definition _ _ => hashKeyword sha256 2 hash definition
  | _ => hash

end ScriptItem

/-- Between two items: no parameter is expected, no opcode begun. -/
structure CompileState.Between (st : CompileState) : Prop where
  activeDefinition : st.activeDefinition = none
  mCurrentOpCode : st.mCurrentOpCode = []
  flagPrefix : st.flagPrefix = []

/-- The keyword of a table that a spelling names. -/
theorem findDefinition_eq (htable : ValidTable definitions) {definition : Definition}
    (hmem : definition ∈ definitions) {spelling : Bytes}
    (hspelling : spelling.map toLower = definition.name.map toLower) :
    findDefinition definitions spelling = some definition := by
  rw [findDefinition, hspelling]
  exact ListUpdate.find?_key_eq (fun definition => definition.name.map toLower) htable.names hmem

theorem setIDBits_eq (mCurrentOpCode : Bytes) {id : UInt64} (hid : id.toNat ≤ 0x7FFF) :
    setIDBits mCurrentOpCode id = idBytes id := by
  have hshort : ¬ (0x7FFF : UInt64) < id := by
    rw [UInt64.lt_iff_toNat_lt]
    exact Nat.not_lt.mpr hid
  rw [setIDBits, if_neg hshort]

/-- A word between two items is looked up first. -/
theorem compileWord_between {st : CompileState} (hst : st.Between) (token : Bytes) :
    compileWord sha256 definitions 2 st token =
      match findDefinition definitions token with
      | some definition => some (compileKeyword sha256 2 st definition)
      | none => compileLiteral st token := by
  unfold compileWord
  rewrite [hst.activeDefinition]
  rfl

/-- A word where a parameter is expected is taken as one. -/
theorem compileWord_waiting {st : CompileState} {definition : Definition}
    (hactive : st.activeDefinition = some definition) (hwaiting : 0 < st.waitingForParams)
    (token : Bytes) :
    compileWord sha256 definitions 2 st token = compileParam sha256 st definition token := by
  unfold compileWord
  rw [hactive]
  dsimp only
  rw [if_pos hwaiting]

/-- A parameter that is no flag completes the opcode. -/
theorem compileParam_eq {st : CompileState} {definition : Definition} {token bytes : Bytes}
    (hflag : definition.isBinary = true → flagR token = false)
    (hbytes : paramBytes sha256 definition token = some bytes) :
    compileParam sha256 st definition token =
      some { st.commit (setContent st.mCurrentOpCode (st.flagPrefix ++ bytes)) with
        flagPrefix := []
        waitingForParams := st.waitingForParams - 1
        activeDefinition := if st.waitingForParams - 1 = 0 then none else st.activeDefinition } := by
  have hnot : ¬ (flagR token && definition.isBinary) = true := by
    cases hbinary : definition.isBinary with
    | false => simp
    | true => simp [hflag hbinary]
  unfold compileParam
  rw [← Definition.isBinary, if_neg hnot, hbytes]
  rfl

/-- A flag before the parameter of a keyword that takes binary text is kept. -/
theorem compileParam_flag {st : CompileState} {definition : Definition} {flag : Bytes}
    (hbinary : definition.isBinary = true) (hflag : flagR flag = true) :
    compileParam sha256 st definition flag = some { st with flagPrefix := flag ++ [32] } := by
  unfold compileParam
  rw [← Definition.isBinary, hflag, hbinary]
  rfl

/-- A valid parameter stands for some bytes. -/
theorem InlineParam.Valid.paramBytes_eq {definition : Definition} {param : InlineParam}
    (hvalid : param.Valid sha256 definition) :
    ∃ bytes, paramBytes sha256 definition param.text = some bytes := by
  unfold InlineParam.Valid at hvalid
  split_ifs at hvalid with hbinary
  · exact Option.ne_none_iff_exists'.mp hvalid.1
  · refine ⟨param.text, ?_⟩
    simp only [Definition.isBinary, Bool.or_eq_true, not_or, Bool.not_eq_true] at hbinary
    simp [paramBytes, hbinary]

/-- What compiling the words of an item comes to: its opcode is added, its keyword is hashed. -/
structure Compiles (sha256 : Bytes → Bytes32) (st : CompileState) (item : ScriptItem)
    (st' : CompileState) : Prop where
  code : st'.mCompiledByteCode = st.mCompiledByteCode ++ item.encode sha256
  hash : st'.mCurrentImageHash = item.hashed sha256 st.mCurrentImageHash
  between : item.Complete → st'.Between

/-- The words of a parameter where the keyword waits for it. -/
theorem foldlM_param {st : CompileState} {definition : Definition} {param : InlineParam}
    (hactive : st.activeDefinition = some definition) (hwaiting : 0 < st.waitingForParams)
    (hflagPrefix : st.flagPrefix = []) (hvalid : param.Valid sha256 definition)
    (hnoflag : definition.isBinary = true → flagR param.text = false) :
    param.words.foldlM (compileWord sha256 definitions 2) st =
      some { st.commit (setContent st.mCurrentOpCode (param.content sha256 definition)) with
        flagPrefix := []
        waitingForParams := st.waitingForParams - 1
        activeDefinition := if st.waitingForParams - 1 = 0 then none else some definition } := by
  obtain ⟨bytes, hbytes⟩ := hvalid.paramBytes_eq
  obtain ⟨flag, text⟩ := param
  cases flag with
  | none =>
      simp only [InlineParam.words, Option.toList_none, List.nil_append, List.foldlM_cons,
        List.foldlM_nil, bind_pure]
      rw [compileWord_waiting hactive hwaiting, compileParam_eq hnoflag hbytes]
      simp [InlineParam.content, hbytes, hflagPrefix, hactive]
  | some flag =>
      have hbinary : definition.isBinary = true := by
        by_contra hnot
        simp [InlineParam.Valid, hnot] at hvalid
      have hflag : flagR flag = true := by
        simp only [InlineParam.Valid, hbinary, if_true] at hvalid
        exact hvalid.2 flag rfl
      have hfirst : compileWord sha256 definitions 2 st flag =
          some { st with flagPrefix := flag ++ [32] } := by
        rw [compileWord_waiting hactive hwaiting, compileParam_flag hbinary hflag]
      have hsecond : compileWord sha256 definitions 2 { st with flagPrefix := flag ++ [32] } text =
          compileParam sha256 { st with flagPrefix := flag ++ [32] } definition text := by
        apply compileWord_waiting
        · exact hactive
        · exact hwaiting
      simp only [InlineParam.words, Option.toList_some, List.singleton_append, List.foldlM_cons,
        List.foldlM_nil, bind_pure]
      rw [hfirst, Option.bind_eq_bind, Option.bind_some, hsecond, compileParam_eq hnoflag hbytes]
      simp [InlineParam.content, hbytes, hactive, CompileState.commit]

/-- A keyword that is not of extended type has no parameters. -/
theorem params_eq_nil {definition : Definition} {spelling : Bytes} {params : List InlineParam}
    (hparams : (ScriptItem.keyword definition spelling params).Complete ∨
      (ScriptItem.keyword definition spelling params).Omits)
    (hext : definition.extType = false) : params = [] := by
  have hzero : definition.requiredParams = 0 := by simp [Definition.requiredParams, hext]
  obtain hcomplete | homits := hparams
  · exact List.length_eq_zero_iff.mp (hcomplete.trans hzero)
  · exact absurd homits (by simp [ScriptItem.Omits, hzero])

/-- A keyword without inline parameters is an opcode by itself. -/
theorem compiles_primitive {st : CompileState} (hst : st.Between) {definition : Definition}
    (hid : definition.id.toNat ≤ 0x7FFF) (hext : definition.extType = false) (spelling : Bytes) :
    Compiles sha256 st (.keyword definition spelling []) (compileKeyword sha256 2 st definition) := by
  have hkeyword : compileKeyword sha256 2 st definition =
      { st.commit (idBytes definition.id) with
        mCurrentImageHash := hashKeyword sha256 2 st.mCurrentImageHash definition
        activeDefinition := none } := by
    simp [compileKeyword, hext, setIDBits_eq _ hid]
  rw [hkeyword]
  exact
    { code := by simp [CompileState.commit, ScriptItem.encode, hext]
      hash := rfl
      between := fun _ => ⟨rfl, rfl, hst.flagPrefix⟩ }

/-- A keyword with the one parameter that is there. -/
theorem compiles_extended {st : CompileState} (hst : st.Between) {definition : Definition}
    (hid : definition.id.toNat ≤ 0x7FFF) (hext : definition.extType = true)
    (hcount : 0 < definition.inlineParamCount.toInt32.toInt) {param : InlineParam}
    (hvalid : param.Valid sha256 definition)
    (hnoflag : definition.isBinary = true → flagR param.text = false) (spelling : Bytes) :
    ∃ st', param.words.foldlM (compileWord sha256 definitions 2)
        (compileKeyword sha256 2 st definition) = some st' ∧
      Compiles sha256 st (.keyword definition spelling [param]) st' := by
  have hpositive : 0 < definition.inlineParamCount := by
    apply UInt32.pos_iff_ne_zero.mpr
    rintro hzero
    rw [hzero] at hcount
    exact absurd hcount (by decide)
  have hkeyword : compileKeyword sha256 2 st definition =
      { st with
        mCurrentOpCode := idBytes definition.id
        mCurrentImageHash := hashKeyword sha256 2 st.mCurrentImageHash definition
        activeDefinition := some definition
        waitingForParams := definition.inlineParamCount.toInt32.toInt } := by
    simp [compileKeyword, hext, hpositive, setIDBits_eq _ hid]
  rw [hkeyword]
  refine ⟨_, foldlM_param rfl hcount hst.flagPrefix hvalid hnoflag, ?_⟩
  refine
    { code := by simp [CompileState.commit, ScriptItem.encode, hext]
      hash := rfl
      between := ?_ }
  intro hcomplete
  have hone : definition.inlineParamCount = 1 := by
    apply UInt32.toNat.inj
    simpa [ScriptItem.Complete, Definition.requiredParams, hext] using hcomplete.symm
  exact ⟨by rw [hone]; rfl, rfl, rfl⟩

/-- An unsigned number is compiled to its bytes. -/
theorem compiles_unsignedNr {st : CompileState} (hst : st.Between) {digits : Bytes}
    (hdigits : unsignedNrR digits = true) (hvalue : digitsValue digits < 2 ^ 64) :
    ∃ st', compileLiteral st digits = some st' ∧ Compiles sha256 st (.unsignedNr digits) st' := by
  refine ⟨{ st with activeDefinition := none }.commit
    (setContent (idBytes BYTECODE_ID_UNSIGNED) (numBytes (digitsValue digits))), ?_, ?_⟩
  · have hparsed : stoull digits = some (digitsValue digits) := if_pos hvalue
    simp [compileLiteral, hdigits, hparsed, setIDBits_eq, BYTECODE_ID_UNSIGNED]
  · exact ⟨rfl, rfl, fun _ => ⟨rfl, rfl, hst.flagPrefix⟩⟩

/-- A number with a minus sign is compiled to the two's complement. -/
theorem compiles_signedNr {st : CompileState} (hst : st.Between) {digits : Bytes}
    (hdigits : unsignedNrR digits = true) (hvalue : digitsValue digits ≤ 2 ^ 63) :
    ∃ st', compileLiteral st (45 :: digits) = some st' ∧
      Compiles sha256 st (.signedNr digits) st' := by
  refine ⟨{ st with activeDefinition := none }.commit
    (setContent (idBytes BYTECODE_ID_SIGNED) (signedContent (digitsValue digits))), ?_, ?_⟩
  · have hparsed : stollNegated digits = some (digitsValue digits) := if_pos hvalue
    have hunsigned : unsignedNrR (45 :: digits) = false := by simp [unsignedNrR, isDigit]
    have hsigned : signedNrR (45 :: digits) = true := by simpa [signedNrR] using hdigits
    simp [compileLiteral, hunsigned, hsigned, hparsed, setIDBits_eq, BYTECODE_ID_SIGNED,
      signedContent]
  · exact ⟨rfl, rfl, fun _ => ⟨rfl, rfl, hst.flagPrefix⟩⟩

/-- A word that is no number is compiled to itself. -/
theorem compiles_word {st : CompileState} (hst : st.Between) {token : Bytes}
    (hunsigned : unsignedNrR token = false) (hsigned : signedNrR token = false) :
    ∃ st', compileLiteral st token = some st' ∧ Compiles sha256 st (.word token) st' := by
  refine ⟨{ st with activeDefinition := none }.commit
    (setContent (idBytes BYTECODE_ID_STRING_LITERAL) token), ?_, ?_⟩
  · simp [compileLiteral, hunsigned, hsigned, setIDBits_eq, BYTECODE_ID_STRING_LITERAL]
  · exact ⟨rfl, rfl, fun _ => ⟨rfl, rfl, hst.flagPrefix⟩⟩

/-- The words of an item that keeps step compile to its opcode. -/
theorem foldlM_item (htable : ValidTable definitions) {st : CompileState} (hst : st.Between)
    {item : ScriptItem} (hvalid : item.Valid sha256 definitions)
    (hparams : item.Complete ∨ item.Omits) (hstep : item.InStep) :
    ∃ st', item.words.foldlM (compileWord sha256 definitions 2) st = some st' ∧
      Compiles sha256 st item st' := by
  cases item with
  | keyword definition spelling params =>
      obtain ⟨hmem, hspelling, hvalid⟩ := hvalid
      have hid := (htable.range definition hmem).2
      have hfirst : compileWord sha256 definitions 2 st spelling =
          some (compileKeyword sha256 2 st definition) := by
        rw [compileWord_between hst, findDefinition_eq htable hmem hspelling]
      rw [ScriptItem.words, List.foldlM_cons, hfirst, Option.bind_eq_bind, Option.bind_some]
      cases hext : definition.extType with
      | false =>
          obtain rfl := params_eq_nil hparams hext
          exact ⟨_, rfl, compiles_primitive hst hid hext spelling⟩
      | true =>
          obtain ⟨hcount, param, rfl, hnoflag⟩ := hstep hext
          rw [List.flatMap_singleton]
          exact compiles_extended hst hid hext hcount (hvalid param (List.mem_singleton_self param))
            hnoflag spelling
  | unsignedNr digits =>
      obtain ⟨hnone, hdigits, hvalue⟩ := hvalid
      obtain ⟨st', hliteral, hcompiles⟩ := compiles_unsignedNr hst hdigits hvalue
      refine ⟨st', ?_, hcompiles⟩
      simpa [ScriptItem.words, compileWord_between hst, hnone] using hliteral
  | signedNr digits =>
      obtain ⟨hnone, hdigits, hvalue⟩ := hvalid
      obtain ⟨st', hliteral, hcompiles⟩ := compiles_signedNr hst hdigits hvalue
      refine ⟨st', ?_, hcompiles⟩
      simpa [ScriptItem.words, compileWord_between hst, hnone] using hliteral
  | word token =>
      obtain ⟨hnone, hunsigned, hsigned⟩ := hvalid
      obtain ⟨st', hliteral, hcompiles⟩ := compiles_word hst hunsigned hsigned
      refine ⟨st', ?_, hcompiles⟩
      simpa [ScriptItem.words, compileWord_between hst, hnone] using hliteral

/-- A keyword whose parameters are missing is hashed, but its opcode is never completed. -/
theorem foldlM_dropped (htable : ValidTable definitions) {st : CompileState} (hst : st.Between)
    {item : ScriptItem} (hvalid : item.Valid sha256 definitions) (hdropped : item.Dropped) :
    ∃ st', item.words.foldlM (compileWord sha256 definitions 2) st = some st' ∧
      st'.mCompiledByteCode = st.mCompiledByteCode ∧
      st'.mCurrentImageHash = item.hashed sha256 st.mCurrentImageHash := by
  cases item with
  | keyword definition spelling params =>
      obtain ⟨hmem, hspelling, -⟩ := hvalid
      obtain ⟨hext, hcount, rfl⟩ := hdropped
      have hfirst : compileWord sha256 definitions 2 st spelling =
          some (compileKeyword sha256 2 st definition) := by
        rw [compileWord_between hst, findDefinition_eq htable hmem hspelling]
      refine ⟨compileKeyword sha256 2 st definition, ?_, ?_, ?_⟩
      · simpa [ScriptItem.words] using hfirst
      · simp [compileKeyword, hext, hcount]
      · simp [compileKeyword, hext, hcount, ScriptItem.hashed]
  | unsignedNr digits => exact hdropped.elim
  | signedNr digits => exact hdropped.elim
  | word token => exact hdropped.elim

/-- The words of a script whose items all keep step compile to their opcodes, one after another. -/
theorem foldlM_items (htable : ValidTable definitions) {items : List ScriptItem}
    (hscript : ValidScript sha256 definitions items)
    (hstep : ∀ item ∈ items, item.InStep) {st : CompileState} (hst : st.Between) :
    ∃ st', (items.flatMap ScriptItem.words).foldlM (compileWord sha256 definitions 2) st = some st' ∧
      st'.mCompiledByteCode = st.mCompiledByteCode ++ items.flatMap (ScriptItem.encode sha256) ∧
      st'.mCurrentImageHash = items.foldl (ScriptItem.hashed sha256) st.mCurrentImageHash ∧
      ((∀ item ∈ items, item.Complete) → st'.Between) := by
  induction items generalizing st with
  | nil => exact ⟨st, rfl, by simp, rfl, fun _ => hst⟩
  | cons item items ih =>
      have hparams : item.Complete ∨ item.Omits := by
        cases items with
        | nil => exact hscript.last item rfl
        | cons next rest => exact .inl (hscript.complete item (by simp))
      obtain ⟨st₁, hfirst, hcompiles⟩ := foldlM_item htable hst (hscript.valid item (by simp)) hparams
        (hstep item (by simp))
      rw [List.flatMap_cons, List.foldlM_append, hfirst, Option.bind_eq_bind, Option.bind_some]
      cases items with
      | nil =>
          exact ⟨st₁, rfl, by simp [hcompiles.code], hcompiles.hash,
            fun hcomplete => hcompiles.between (hcomplete item List.mem_cons_self)⟩
      | cons next rest =>
          have hbetween : st₁.Between := hcompiles.between (hscript.complete item (by simp))
          obtain ⟨st', hrest, hcode, hhash, hlast⟩ := ih hscript.tail
            (fun item hitem => hstep item (List.mem_cons_of_mem _ hitem)) hbetween
          refine ⟨st', hrest, ?_, ?_, ?_⟩
          · rw [hcode, hcompiles.code, List.append_assoc, ← List.flatMap_cons]
          · rw [hhash, hcompiles.hash, ← List.foldl_cons]
          · exact fun hcomplete =>
              hlast fun item hitem => hcomplete item (List.mem_cons_of_mem _ hitem)

/-- Before its first word the compiler is between two items. -/
theorem between_initial (hash : Bytes32) :
    CompileState.Between { mCurrentImageHash := hash } := ⟨rfl, rfl, rfl⟩

/-- A script whose items all keep step compiles to their opcodes, unless there are none. -/
theorem compile_items (htable : ValidTable definitions) {source : Bytes} {items : List ScriptItem}
    (hscript : ValidScript sha256 definitions items) (hreads : Reads source items)
    (hstep : ∀ item ∈ items, item.InStep) :
    compile sha256 definitions 2 source =
      if items.flatMap (ScriptItem.encode sha256) = [] then none
      else some (items.flatMap (ScriptItem.encode sha256),
        items.foldl (ScriptItem.hashed sha256) (initializeKeywordHash sha256)) := by
  obtain ⟨st', hfold, hcode, hhash, -⟩ := foldlM_items htable hscript hstep
    (between_initial (initializeKeywordHash sha256))
  unfold compile
  rw [hreads, hfold, Option.bind_some, hcode, hhash]
  rfl

/-- If the last keyword is dropped the opcodes are those of the other items, and the hash goes on
over the keyword. -/
theorem compile_dropped (htable : ValidTable definitions) {source : Bytes}
    {items : List ScriptItem} {item : ScriptItem}
    (hscript : ValidScript sha256 definitions (items ++ [item]))
    (hreads : Reads source (items ++ [item])) (hstep : ∀ item ∈ items, item.InStep)
    (hdropped : item.Dropped) :
    compile sha256 definitions 2 source =
      if items.flatMap (ScriptItem.encode sha256) = [] then none
      else some (items.flatMap (ScriptItem.encode sha256),
        item.hashed sha256
          (items.foldl (ScriptItem.hashed sha256) (initializeKeywordHash sha256))) := by
  have hcomplete : ∀ item ∈ items, item.Complete := by simpa using hscript.complete
  obtain ⟨st₁, hfold, hcode, hhash, hbetween⟩ := foldlM_items htable hscript.init hstep
    (between_initial (initializeKeywordHash sha256))
  obtain ⟨st', hlast, hcode', hhash'⟩ := foldlM_dropped htable (hbetween hcomplete)
    (hscript.valid item (by simp)) hdropped
  unfold compile
  rw [hreads, List.flatMap_append, List.flatMap_singleton, List.foldlM_append, hfold,
    Option.bind_eq_bind, Option.bind_some, hlast, Option.bind_some, hcode', hcode, hhash', hhash]
  rfl

end Gridnet
