import Gridnet.CompilersAgree
import Gridnet.Sha256
import Mathlib.Algebra.Order.BigOperators.Group.List
import Mathlib.Data.Set.Function

/-! Where the two compilers part, their outputs differ. At the first word they take for different
things, what each has emitted can no longer become the same; for the keyword hashes, that two chains
are different takes that SHA-256 has no collision in them. -/

namespace Gridnet

section Differ

variable {sha256 : Bytes → Bytes32} {definitions : List Definition}

/-! ### What is emitted stays -/

theorem compileLiteral_extends {st st' : CompileState} {token : Bytes}
    (hliteral : compileLiteral st token = some st') :
    st.mCompiledByteCode <+: st'.mCompiledByteCode := by
  unfold compileLiteral at hliteral
  dsimp only at hliteral
  split_ifs at hliteral
  · obtain ⟨num, -, rfl⟩ := Option.map_eq_some_iff.mp hliteral
    exact List.prefix_append _ _
  · obtain ⟨num, -, rfl⟩ := Option.map_eq_some_iff.mp hliteral
    exact List.prefix_append _ _
  · obtain rfl := Option.some.inj hliteral
    exact List.prefix_append _ _

theorem compileKeyword_extends (st : CompileState) (definition : Definition) :
    st.mCompiledByteCode <+: (compileKeyword sha256 2 st definition).mCompiledByteCode := by
  unfold compileKeyword
  dsimp only
  split_ifs
  · exact List.prefix_rfl
  · exact List.prefix_append _ _

theorem compileParam_extends {st st' : CompileState} {definition : Definition} {token : Bytes}
    (hparam : compileParam sha256 st definition token = some st') :
    st.mCompiledByteCode <+: st'.mCompiledByteCode := by
  unfold compileParam at hparam
  split at hparam
  · obtain rfl := Option.some.inj hparam
    exact List.prefix_rfl
  · obtain ⟨bytes, -, rfl⟩ := Option.map_eq_some_iff.mp hparam
    exact List.prefix_append _ _

/-- A word is a parameter, a keyword or a literal. -/
theorem compileWord_cases {st st' : CompileState} {token : Bytes}
    (hword : compileWord sha256 definitions 2 st token = some st') :
    (∃ definition, compileParam sha256 st definition token = some st') ∨
      (∃ definition, st' = compileKeyword sha256 2 st definition) ∨ compileLiteral st token = some st' := by
  unfold compileWord at hword
  cases hactive : st.activeDefinition with
  | none =>
      cases hfind : findDefinition definitions token <;> rw [hactive, hfind] at hword
      · exact .inr (.inr hword)
      · exact .inr (.inl ⟨_, (Option.some.inj hword).symm⟩)
  | some definition =>
      rw [hactive] at hword
      dsimp only at hword
      split_ifs at hword
      · exact .inl ⟨definition, hword⟩
      · cases hfind : findDefinition definitions token <;> rw [hfind] at hword
        · exact .inr (.inr hword)
        · exact .inr (.inl ⟨_, (Option.some.inj hword).symm⟩)

theorem compileWord_extends {st st' : CompileState} {token : Bytes}
    (hword : compileWord sha256 definitions 2 st token = some st') :
    st.mCompiledByteCode <+: st'.mCompiledByteCode := by
  rcases compileWord_cases hword with ⟨definition, hparam⟩ | ⟨definition, rfl⟩ | hliteral
  · exact compileParam_extends hparam
  · exact compileKeyword_extends st definition
  · exact compileLiteral_extends hliteral

theorem foldlM_compileWord_extends {tokens : List Bytes} {st st' : CompileState}
    (hrun : tokens.foldlM (compileWord sha256 definitions 2) st = some st') :
    st.mCompiledByteCode <+: st'.mCompiledByteCode := by
  induction tokens generalizing st with
  | nil =>
      cases hrun
      exact List.prefix_rfl
  | cons token tokens ih =>
      rw [List.foldlM_cons] at hrun
      obtain ⟨st₁, hword, hrun⟩ := Option.bind_eq_some_iff.mp hrun
      exact (compileWord_extends hword).trans (ih hrun)

namespace GridScriptCompiler

/-- The bytes written so far, with those of the opcode that is begun. -/
def CompileState.begun (st : CompileState) : Bytes :=
  st.byteCode ++ if st.waitingForParam then st.mCurrentOpCode else []

theorem begun_prefix_result (st : CompileState) : st.begun <+: st.result := by
  unfold CompileState.begun CompileState.result
  split_ifs
  · rw [setContentBits, List.append_assoc, ← List.append_assoc]
    exact List.prefix_append _ _
  · rw [List.append_nil]

theorem compileWord_begun {st st' : CompileState} {token : Bytes}
    (hword : compileWord sha256 definitions st token = some st') : st.begun <+: st'.begun := by
  unfold compileWord at hword
  split_ifs at hword with hwaiting
  · obtain ⟨definition, -, hparam⟩ := Option.bind_eq_some_iff.mp hword
    unfold compileParam at hparam
    split_ifs at hparam
    · obtain rfl := Option.some.inj hparam
      exact List.prefix_rfl
    · obtain ⟨bytes, -, rfl⟩ := Option.map_eq_some_iff.mp hparam
      dsimp only
      split_ifs
      · simp [CompileState.begun, CompileState.commit, hwaiting, setContentBits]
      · exact List.prefix_rfl
  · have hbegun : st.begun = st.byteCode := by simp [CompileState.begun, hwaiting]
    rw [hbegun]
    cases hfind : findDefinition definitions token with
    | none =>
        rw [hfind] at hword
        obtain rfl := Option.some.inj hword
        exact List.prefix_append _ _
    | some definition =>
        rw [hfind] at hword
        obtain rfl := Option.some.inj hword
        unfold compileKeyword
        dsimp only
        split_ifs
        · exact List.prefix_append _ _
        · simp [CompileState.begun, CompileState.commit]

theorem foldlM_compileWord_begun {tokens : List Bytes} {st st' : CompileState}
    (hrun : tokens.foldlM (compileWord sha256 definitions) st = some st') :
    st.begun <+: st'.result := by
  induction tokens generalizing st with
  | nil =>
      cases hrun
      exact begun_prefix_result _
  | cons token tokens ih =>
      rw [List.foldlM_cons] at hrun
      obtain ⟨st₁, hword, hrun⟩ := Option.bind_eq_some_iff.mp hrun
      exact (compileWord_begun hword).trans (ih hrun)

end GridScriptCompiler

/-! ### The first byte of an opcode -/

theorem idBytes_head {id : UInt64} (hreserved : 6 ≤ id.toNat) (hid : id.toNat ≤ 0x7FFF) :
    ∃ c rest, idBytes id = c :: rest ∧ 6 ≤ c.toNat := by
  by_cases hlong : 127 < id.toNat
  · obtain ⟨first, second, hbytes, hfirst, -⟩ := idBytes_long hlong hid
    exact ⟨first, [second], hbytes, by omega⟩
  · refine ⟨_, _, idBytes_short (by omega), ?_⟩
    rw [UInt64.toNat_toUInt8]
    omega

/-- A literal or a number begins with a reserved ID. -/
theorem compileLiteral_head {st st' : CompileState} {token : Bytes}
    (hliteral : compileLiteral st token = some st') :
    ∃ c rest, st'.mCompiledByteCode = st.mCompiledByteCode ++ c :: rest ∧ c.toNat < 6 := by
  unfold compileLiteral at hliteral
  dsimp only at hliteral
  split_ifs at hliteral
  · obtain ⟨num, -, rfl⟩ := Option.map_eq_some_iff.mp hliteral
    exact ⟨1, _, rfl, by decide⟩
  · obtain ⟨num, -, rfl⟩ := Option.map_eq_some_iff.mp hliteral
    exact ⟨2, _, rfl, by decide⟩
  · obtain rfl := Option.some.inj hliteral
    exact ⟨5, _, rfl, by decide⟩

namespace GridScriptCompiler

/-- Whatever the reference compiler emits next begins with the ID of a keyword. -/
theorem result_of_between (hrange : ∀ definition ∈ definitions, 6 ≤ definition.id.toNat ∧
      definition.id.toNat ≤ 0x7FFF) {tokens : List Bytes} {st st' : CompileState}
    (hst : st.waitingForParam = false)
    (hrun : tokens.foldlM (compileWord sha256 definitions) st = some st') :
    st'.result = st.byteCode ∨ ∃ c rest, st'.result = st.byteCode ++ c :: rest ∧ 6 ≤ c.toNat := by
  induction tokens generalizing st with
  | nil =>
      cases hrun
      exact Or.inl (by simp [CompileState.result, hst])
  | cons token tokens ih =>
      rw [List.foldlM_cons, compileWord_between hst] at hrun
      cases hfind : findDefinition definitions token with
      | none =>
          rw [hfind] at hrun
          have hskip : tokens.foldlM (compileWord sha256 definitions)
              { st with activeDefinition := none } = some st' := hrun
          have hrest := ih (show ({ st with activeDefinition := none } :
            CompileState).waitingForParam = false from hst) hskip
          exact hrest
      | some definition =>
          rw [hfind] at hrun
          right
          obtain ⟨hreserved, hid⟩ := hrange definition (List.mem_of_find?_eq_some hfind)
          obtain ⟨c, rest, hhead, hc⟩ := idBytes_head hreserved hid
          have hbegun : (compileKeyword sha256 st definition).begun =
              st.byteCode ++ idBytes definition.id := by
            unfold compileKeyword
            dsimp only
            split_ifs <;> simp [CompileState.begun, CompileState.commit, setIDBits]
          obtain ⟨more, hmore⟩ := foldlM_compileWord_begun hrun
          rw [hbegun, hhead, List.append_assoc] at hmore
          exact ⟨c, rest ++ more, hmore.symm, hc⟩

end GridScriptCompiler

/-! ### Lengths -/

theorem BigIntToBytes_of_lt {n : ℕ} (hn : n < 256) : BigIntToBytes n = [UInt8.ofNat n] := by
  have hbyte := BigIntToBytes_toNat (UInt8.ofNat n)
  rwa [UInt8.toNat_ofNat', Nat.mod_eq_of_lt hn] at hbyte

/-- A length of one byte is not taken for another one. -/
theorem lengthBits_append {len len' : ℕ} {after after' : Bytes} (hlen : len ≤ 255)
    (hlen' : len' < 2 ^ 64)
    (hsame : lengthBits len ++ after = GridScriptCompiler.lengthBits len' ++ after') :
    len = len' := by
  have hfirst {k : ℕ} : 128 ≤ (UInt8.ofNat k ||| 0x80).toNat := by
    rw [UInt8.toNat_or]
    exact Nat.right_le_or
  unfold lengthBits GridScriptCompiler.lengthBits at hsame
  split_ifs at hsame with hshort hshort' hshort'
  · obtain ⟨hbyte, -⟩ := List.cons.inj hsame
    have hvalue := congrArg UInt8.toNat hbyte
    simp only [UInt8.toNat_ofNat'] at hvalue
    omega
  · obtain ⟨hbyte, -⟩ := List.cons.inj hsame
    have hvalue := congrArg UInt8.toNat hbyte
    have hhigh := @hfirst (BigIntToBytes len').length
    rw [← hvalue, UInt8.toNat_ofNat'] at hhigh
    omega
  · obtain ⟨hbyte, -⟩ := List.cons.inj hsame
    have hvalue := congrArg UInt8.toNat hbyte
    have hhigh := @hfirst (numBytes len).length
    rw [UInt8.or_comm, hvalue, UInt8.toNat_ofNat'] at hhigh
    omega
  · obtain ⟨hbyte, hrest⟩ := List.cons.inj hsame
    have hsmall : len < 256 := Nat.lt_succ_of_le hlen
    have hbound : (numBytes len).length ≤ 8 := numBytes_length_le (by omega)
    have hbound' : (numBytes len').length ≤ 8 := numBytes_length_le hlen'
    have hcount : (numBytes len).length = (numBytes len').length := by
      have hlength' : (BigIntToBytes len').length = (numBytes len').length :=
        List.length_reverse.symm
      rw [← (lengthBits_first hbound).2, ← (lengthBits_first hbound').2, hbyte, hlength',
        UInt8.or_comm]
    have hone : (numBytes len).length = 1 := by
      rw [numBytes, List.length_reverse, BigIntToBytes_length_eq_one]
      exact hsmall
    have hsmall' : len' < 256 := by
      rw [← BigIntToBytes_length_eq_one, ← List.length_reverse, ← numBytes, ← hcount, hone]
    rw [numBytes, BigIntToBytes_of_lt hsmall, BigIntToBytes_of_lt hsmall'] at hrest
    have hvalue := congrArg UInt8.toNat (List.cons.inj hrest).1
    simp only [UInt8.toNat_ofNat'] at hvalue
    omega

/-- The same length reads alike where both write it alike. -/
theorem numBytes_of_lengthBits_append {len : ℕ} {after after' : Bytes}
    (hsame : lengthBits len ++ after = GridScriptCompiler.lengthBits len ++ after') :
    numBytes len = BigIntToBytes len := by
  apply (GridScriptCompiler.lengthBits_eq_iff len).mp
  refine (List.append_inj hsame ?_).1
  unfold lengthBits GridScriptCompiler.lengthBits numBytes
  split_ifs <;> simp

/-! ### The first word that is read differently -/

/-- Words whose reading both compilers settle at once: keywords are spelled as in the table, and flags
are of one length byte and do not follow each other. -/
structure PlainWords (definitions : List Definition) (tokens : List Bytes) : Prop where
  spelled : ∀ token ∈ tokens, ∀ definition,
    findDefinition definitions token = some definition → definition.name = token
  short : ∀ token ∈ tokens, flagR token = true → token.length ≤ 255
  apart : tokens.IsChain fun token next => flagR token = true → flagR next = false

theorem PlainWords.tail {token : Bytes} {tokens : List Bytes}
    (hplain : PlainWords definitions (token :: tokens)) : PlainWords definitions tokens where
  spelled := fun token htoken => hplain.spelled token (List.mem_cons_of_mem _ htoken)
  short := fun token htoken => hplain.short token (List.mem_cons_of_mem _ htoken)
  apart := (List.isChain_cons.mp hplain.apart).2

/-- A word of a text, as far as the compilers rely on it. -/
def IsToken (token : Bytes) : Prop := 32 ∉ token ∧ token.length < 2 ^ 63

/-- A keyword spelled as in the table is found by both. -/
theorem referenceFind_eq_some (htable : ValidTable definitions) {token : Bytes}
    {definition : Definition} (hfind : findDefinition definitions token = some definition)
    (hname : definition.name = token) :
    GridScriptCompiler.findDefinition definitions token = some definition := by
  have hnames : (definitions.map fun definition => definition.name).Nodup := by
    apply List.Nodup.of_map (List.map toLower)
    rw [List.map_map]
    exact htable.names
  rw [GridScriptCompiler.findDefinition, ← hname]
  exact ListUpdate.find?_key_eq (fun definition => definition.name) hnames (List.mem_of_find?_eq_some hfind)

/-- A word that is no keyword in any spelling is none in the exact one. -/
theorem referenceFind_eq_none {token : Bytes} (hfind : findDefinition definitions token = none) :
    GridScriptCompiler.findDefinition definitions token = none := by
  rw [GridScriptCompiler.findDefinition, List.find?_eq_none]
  rintro definition hmem hname
  have hother := List.find?_eq_none.mp hfind definition hmem
  exact hother (by simpa using congrArg (List.map toLower) (of_decide_eq_true hname))

/-- A word that is no keyword: the standalone compiler emits it, the reference compiler emits at most
a keyword. -/
theorem differ_of_literal (htable : ValidTable definitions) {tokens : List Bytes} {token : Bytes}
    {st st₁ st' : CompileState} {rst rst' : GridScriptCompiler.CompileState}
    (hrst : rst.At .between) (hcode : st.mCompiledByteCode = rst.byteCode)
    (hword : compileLiteral st token = some st₁)
    (hrun : tokens.foldlM (compileWord sha256 definitions 2) st₁ = some st')
    (hrun' : tokens.foldlM (GridScriptCompiler.compileWord sha256 definitions)
      { rst with activeDefinition := none } = some rst') :
    st'.mCompiledByteCode ≠ rst'.result := by
  obtain ⟨c, rest, hemitted, hc⟩ := compileLiteral_head hword
  obtain ⟨more, hmore⟩ := foldlM_compileWord_extends hrun
  have hskipped := GridScriptCompiler.result_of_between htable.range
    (show ({ rst with activeDefinition := none } :
      GridScriptCompiler.CompileState).waitingForParam = false from hrst.1) hrun'
  rw [← hmore, hemitted, hcode, List.append_assoc]
  obtain hnothing | ⟨c', rest', hemitted', hc'⟩ := hskipped
  · rw [hnothing]
    simp
  · rw [hemitted']
    intro hsame
    obtain rfl := (List.cons.inj (List.append_cancel_left hsame)).1
    omega

/-- A flag before text that is not binary: the standalone compiler takes it for the parameter, the
reference compiler for a part of it. -/
theorem differ_of_flag {tokens : List Bytes} {token : Bytes} {definition : Definition}
    (hplain : PlainWords definitions (token :: tokens))
    (htokens : ∀ token ∈ tokens, IsToken token) (hflag : flagR token = true)
    (hbinary : definition.isBinary = false) {st st₁ st' : CompileState}
    {rst rst₁ rst' : GridScriptCompiler.CompileState}
    (hst : st.At (.waiting definition none)) (hrst : rst.At (.waiting definition none))
    (hcode : st.mCompiledByteCode = rst.byteCode)
    (hword : compileWord sha256 definitions 2 st token = some st₁)
    (hword' : GridScriptCompiler.compileWord sha256 definitions rst token = some rst₁)
    (hrun : tokens.foldlM (compileWord sha256 definitions 2) st₁ = some st')
    (hrun' : tokens.foldlM (GridScriptCompiler.compileWord sha256 definitions) rst₁ = some rst') :
    st'.mCompiledByteCode ≠ rst'.result := by
  have hshort := hplain.short token List.mem_cons_self hflag
  obtain ⟨bytes, hbytes, -, hemitted, -⟩ := hst.compileWord_param (fun _ => hbinary) hword
  have hcontent : (InlineParam.mk none token).content sha256 definition = token := by
    simp [InlineParam.content, paramBytes_plain hbinary]
  obtain ⟨hwaiting, hcode', -⟩ := hrst.compileWord_flag hflag hword'
  obtain ⟨more, hmore⟩ := foldlM_compileWord_extends hrun
  rw [← hmore, hemitted, hcontent, hcode, ← hcode']
  have hresult : ∃ content more', rst'.result = rst₁.byteCode ++ (idBytes definition.id ++
      GridScriptCompiler.lengthBits (List.length content) ++ content ++ more') ∧
      content.length ≠ token.length ∧ content.length < 2 ^ 64 := by
    cases tokens with
    | nil =>
        cases hrun'
        obtain ⟨-, hwaits, hopcode, -, -, -, hvec, -⟩ := hwaiting
        refine ⟨[], [], ?_, ?_, by decide⟩
        · rw [GridScriptCompiler.CompileState.result, if_pos hwaits, hopcode, hvec, List.append_nil,
            GridScriptCompiler.setContentBits]
        · have hlength := (flagR_chars hflag).1
          rw [List.length_nil]
          omega
    | cons next tokens =>
        obtain ⟨hblank, hlength⟩ := htokens next List.mem_cons_self
        rw [List.foldlM_cons] at hrun'
        obtain ⟨rst₂, hword₂, hrun'⟩ := Option.bind_eq_some_iff.mp hrun'
        obtain ⟨bytes', hbytes', hbetween, hemitted', -⟩ :=
          hwaiting.compileWord_param hblank (fun _ => Option.some_ne_none _) hword₂
        obtain ⟨more', hmore'⟩ := GridScriptCompiler.foldlM_compileWord_begun hrun'
        have hbegun : rst₂.begun = rst₂.byteCode := by
          simp [GridScriptCompiler.CompileState.begun, hbetween.1]
        have htext : bytes' = next := by
          simp only [Definition.isBinary, Bool.or_eq_false_iff] at hbinary
          simpa [GridScriptCompiler.textBytes, hbinary, eq_comm] using hbytes'
        refine ⟨token ++ [32] ++ bytes', more', ?_, ?_, ?_⟩
        · rw [← hmore', hbegun, hemitted', GridScriptCompiler.setContentBits, List.append_assoc]
          rfl
        · simp
        · simp only [htext, List.length_append, List.length_singleton]
          omega
  obtain ⟨content, more', hresult, hne, hfits⟩ := hresult
  rw [hresult]
  intro hsame
  simp only [setContent, List.append_assoc] at hsame
  exact hne (lengthBits_append hshort hfits
    (List.append_cancel_left (List.append_cancel_left hsame))).symm

/-- A length that reads otherwise backwards. -/
theorem differ_of_length {tokens : List Bytes} {token : Bytes} {definition : Definition}
    {flag : Option Bytes} (htoken : 32 ∉ token) (hflag : flagR token = false)
    {st st₁ st' : CompileState} {rst rst₁ rst' : GridScriptCompiler.CompileState}
    (hst : st.At (.waiting definition flag)) (hrst : rst.At (.waiting definition flag))
    (hcode : st.mCompiledByteCode = rst.byteCode)
    (hword : compileWord sha256 definitions 2 st token = some st₁)
    (hword' : GridScriptCompiler.compileWord sha256 definitions rst token = some rst₁)
    (hrun : tokens.foldlM (compileWord sha256 definitions 2) st₁ = some st')
    (hrun' : tokens.foldlM (GridScriptCompiler.compileWord sha256 definitions) rst₁ = some rst')
    (hlength : numBytes ((InlineParam.mk flag token).content sha256 definition).length ≠
      BigIntToBytes ((InlineParam.mk flag token).content sha256 definition).length) :
    st'.mCompiledByteCode ≠ rst'.result := by
  obtain ⟨⟨-, hbetween⟩, ⟨hemitted, hemitted'⟩, -⟩ :=
    param_contents hst hrst htoken hflag hword hword'
  obtain ⟨more, hmore⟩ := foldlM_compileWord_extends hrun
  obtain ⟨more', hmore'⟩ := GridScriptCompiler.foldlM_compileWord_begun hrun'
  have hbegun : rst₁.begun = rst₁.byteCode := by
    simp [GridScriptCompiler.CompileState.begun, hbetween.1]
  rw [← hmore, ← hmore', hbegun, hemitted, hemitted', hcode]
  intro hsame
  simp only [setContent, GridScriptCompiler.setContentBits, List.append_assoc] at hsame
  exact hlength (numBytes_of_lengthBits_append
    (List.append_cancel_left (List.append_cancel_left hsame)))

/-- Words that both compilers turn into the same bytes are read alike. -/
theorem readInStep_of_result_eq (htable : ValidTable definitions)
    (hparams : ∀ definition ∈ definitions, definition.inlineParamCount ≤ 1) {tokens : List Bytes}
    (hplain : PlainWords definitions tokens) (htokens : ∀ token ∈ tokens, IsToken token)
    {phase : CompilePhase}
    (hnext : ∀ definition flag, phase = .waiting definition (some flag) →
      ∀ next ∈ tokens.head?, flagR next = false)
    {st st' : CompileState} {rst rst' : GridScriptCompiler.CompileState} (hst : st.At phase)
    (hrst : rst.At phase) (hcode : st.mCompiledByteCode = rst.byteCode)
    (hrun : tokens.foldlM (compileWord sha256 definitions 2) st = some st')
    (hrun' : tokens.foldlM (GridScriptCompiler.compileWord sha256 definitions) rst = some rst')
    (hend : st'.mCompiledByteCode = rst'.result) :
    ∃ keywords, readInStep sha256 definitions phase tokens = some keywords := by
  induction tokens generalizing phase st rst with
  | nil =>
      cases phase with
      | between => exact ⟨[], rfl⟩
      | waiting definition flag =>
          cases hrun
          cases hrun'
          obtain ⟨-, hwaits, hopcode, -, -, -, hvec, -⟩ := hrst
          rw [GridScriptCompiler.CompileState.result, if_pos hwaits, hcode, hopcode,
            GridScriptCompiler.setContentBits] at hend
          simp [idBytes_ne_nil] at hend
  | cons token tokens ih =>
      rw [List.foldlM_cons] at hrun hrun'
      obtain ⟨st₁, hword, hrun⟩ := Option.bind_eq_some_iff.mp hrun
      obtain ⟨rst₁, hword', hrun'⟩ := Option.bind_eq_some_iff.mp hrun'
      obtain ⟨⟨hblank, -⟩, htokens⟩ := List.forall_mem_cons.mp htokens
      have hgo (phase' : CompilePhase) (hnext' : ∀ definition flag,
          phase' = .waiting definition (some flag) → ∀ next ∈ tokens.head?, flagR next = false)
          (hat : st₁.At phase') (hat' : rst₁.At phase')
          (hcode' : st₁.mCompiledByteCode = rst₁.byteCode) :
          ∃ keywords, readInStep sha256 definitions phase' tokens = some keywords :=
        ih hplain.tail htokens hnext' hat hat' hcode' hrun hrun'
      cases phase with
      | between =>
          rw [compileWord_between hst] at hword
          rw [GridScriptCompiler.compileWord_between hrst.1] at hword'
          cases hfind : findDefinition definitions token with
          | none =>
              rw [hfind] at hword
              rw [referenceFind_eq_none hfind] at hword'
              cases hword'
              exact absurd hend (differ_of_literal htable hrst hcode hword hrun hrun')
          | some definition =>
              have hmem : definition ∈ definitions := List.mem_of_find?_eq_some hfind
              have hid := (htable.range definition hmem).2
              have hexact := referenceFind_eq_some htable hfind
                (hplain.spelled token List.mem_cons_self definition hfind)
              rw [hfind] at hword
              rw [hexact] at hword'
              cases hword
              cases hword'
              by_cases htakes : definition.takesParams = true
              · have hone : definition.inlineParamCount = 1 := by
                  have hle := UInt32.le_iff_toNat_le.mp (hparams definition hmem)
                  have hlt := UInt32.lt_iff_toNat_lt.mp
                    (of_decide_eq_true (Bool.and_eq_true_iff.mp htakes).2)
                  exact UInt32.toNat.inj (Nat.le_antisymm hle hlt)
                obtain ⟨hat, hsame⟩ :=
                  compileKeyword_waiting sha256 hst hid htakes hone
                obtain ⟨hat', hsame'⟩ :=
                  GridScriptCompiler.compileKeyword_waiting sha256 hrst htakes hone
                obtain ⟨keywords, hread⟩ := hgo _ (by simp) hat hat' (by rw [hsame, hsame', hcode])
                refine ⟨definition :: keywords, ?_⟩
                simp only [readInStep, hfind]
                rw [if_pos ⟨hexact, hid⟩, if_pos htakes, if_pos hone, hread]
                rfl
              · obtain ⟨hat, hemitted⟩ :=
                  compileKeyword_primitive sha256 hst hid (Bool.eq_false_of_not_eq_true htakes)
                obtain ⟨hat', hemitted'⟩ :=
                  GridScriptCompiler.compileKeyword_primitive sha256 hrst
                    (Bool.eq_false_of_not_eq_true htakes)
                obtain ⟨keywords, hread⟩ := hgo .between (by simp) hat hat'
                  (by rw [hemitted, hemitted', hcode])
                refine ⟨definition :: keywords, ?_⟩
                simp only [readInStep, hfind]
                rw [if_pos ⟨hexact, hid⟩, if_neg htakes, hread]
                rfl
      | waiting definition flag =>
          cases hflag : flagR token with
          | true =>
              cases flag with
              | some flag =>
                  have hno := hnext definition flag rfl token rfl
                  exact absurd (hflag.symm.trans hno) (by decide)
              | none =>
                  cases hbinary : definition.isBinary with
                  | false =>
                      exact absurd hend (differ_of_flag hplain htokens hflag hbinary hst hrst hcode
                        hword hword' hrun hrun')
                  | true =>
                      obtain ⟨hat, hsame, -⟩ := hst.compileWord_flag hflag hbinary hword
                      obtain ⟨hat', hsame', -⟩ := hrst.compileWord_flag hflag hword'
                      obtain ⟨keywords, hread⟩ := hgo _
                        (fun _ _ _ next hnext' => (List.isChain_cons.mp hplain.apart).1 next hnext' hflag)
                        hat hat' (by rw [hsame, hsame', hcode])
                      exact ⟨keywords, by rw [readInStep, if_pos hflag, if_pos ⟨rfl, hbinary⟩, hread]⟩
          | false =>
              by_cases hlength :
                  numBytes ((InlineParam.mk flag token).content sha256 definition).length =
                    BigIntToBytes ((InlineParam.mk flag token).content sha256 definition).length
              · obtain ⟨hat, hat', halike⟩ :=
                  advanceAlike_param hst hrst hblank hflag hword hword' hlength
                obtain ⟨code, hemitted, hemitted'⟩ := halike.code
                obtain ⟨keywords, hread⟩ := hgo .between (by simp) hat hat'
                  (by rw [hemitted, hemitted', hcode])
                exact ⟨keywords, by simp [readInStep, hflag, hlength, hread]⟩
              · exact absurd hend (differ_of_length hblank hflag hst hrst hcode hword hword' hrun
                  hrun' hlength)

/-! ### The keyword hashes -/

/-- The hash after keywords of these names. -/
def keywordChain (sha256 : Bytes → Bytes32) (hash : Bytes32) (names : List Bytes) : Bytes32 :=
  names.foldl (updateKeywordHash sha256) hash

/-- What is hashed on the way. -/
def chainMessages (sha256 : Bytes → Bytes32) : Bytes32 → List Bytes → List Bytes
  | _, [] => []
  | hash, name :: names =>
      (hash.1 ++ name) :: chainMessages sha256 (updateKeywordHash sha256 hash name) names

/-- The names of the keywords with an ID above a bound. -/
def namesAbove (bound : UInt64) (keywords : List Definition) : List Bytes :=
  (keywords.filter fun definition => bound < definition.id).map fun definition => definition.name

theorem foldl_hashKeyword (hash : Bytes32) (keywords : List Definition) :
    keywords.foldl (hashKeyword sha256 2) hash =
      keywordChain sha256 hash (namesAbove BYTECODE_ID_STRING_LITERAL keywords) := by
  induction keywords generalizing hash with
  | nil => rfl
  | cons definition keywords ih =>
      rw [List.foldl_cons, ih]
      by_cases hid : BYTECODE_ID_STRING_LITERAL < definition.id
      · simp [namesAbove, hashKeyword, hid, keywordChain]
      · simp [namesAbove, hashKeyword, hid]

theorem foldl_referenceHashKeyword (hash : Bytes32) (keywords : List Definition) :
    keywords.foldl (GridScriptCompiler.hashKeyword sha256) hash = keywordChain sha256 hash
      (namesAbove GridScriptCompiler.BYTECODE_ID_STRING_LITERAL keywords) := by
  induction keywords generalizing hash with
  | nil => rfl
  | cons definition keywords ih =>
      rw [List.foldl_cons, ih]
      by_cases hid : GridScriptCompiler.BYTECODE_ID_STRING_LITERAL < definition.id
      · simp [namesAbove, GridScriptCompiler.hashKeyword, hid, keywordChain]
        rfl
      · simp [namesAbove, GridScriptCompiler.hashKeyword, hid]

theorem keywordChain_concat (hash : Bytes32) (names : List Bytes) (name : Bytes) :
    keywordChain sha256 hash (names ++ [name]) =
      sha256 ((keywordChain sha256 hash names).1 ++ name) := by
  rw [keywordChain, List.foldl_append]
  rfl

theorem chainMessages_concat (hash : Bytes32) (names : List Bytes) (name : Bytes) :
    chainMessages sha256 hash (names ++ [name]) =
      chainMessages sha256 hash names ++ [(keywordChain sha256 hash names).1 ++ name] := by
  induction names generalizing hash with
  | nil => rfl
  | cons first names ih =>
      rw [List.cons_append, chainMessages, ih]
      rfl

/-- The messages of two chains from the initial hash. -/
def hashedMessages (sha256 : Bytes → Bytes32) (names names' : List Bytes) : Set Bytes :=
  {message | message = GRIDSCRIPT_IMAGE_INIT_STRING ∨
    message ∈ chainMessages sha256 (initializeKeywordHash sha256) names ∨
    message ∈ chainMessages sha256 (initializeKeywordHash sha256) names'}

/-- A keyword never extends a chain to the initial message, which is shorter than a hash. -/
theorem initString_ne (hash : Bytes32) (name : Bytes) :
    GRIDSCRIPT_IMAGE_INIT_STRING ≠ hash.1 ++ name := by
  intro hsame
  have hlength := congrArg List.length hsame
  rw [List.length_append, hash.2] at hlength
  have hinit : GRIDSCRIPT_IMAGE_INIT_STRING.length = 27 := by decide
  omega

/-- Without a collision among their messages, chains that end in the same hash are the same. -/
theorem keywordChain_injOn {names names' : List Bytes}
    (hinj : Set.InjOn sha256 (hashedMessages sha256 names names'))
    (hsame : keywordChain sha256 (initializeKeywordHash sha256) names =
      keywordChain sha256 (initializeKeywordHash sha256) names') : names = names' := by
  induction names using List.reverseRecOn generalizing names' with
  | nil =>
      obtain rfl | ⟨before', last', rfl⟩ := List.eq_nil_or_concat' names'
      · rfl
      · rw [keywordChain_concat] at hsame
        refine absurd (hinj (Or.inl rfl) (Or.inr (Or.inr ?_)) hsame) (initString_ne _ _)
        simp [chainMessages_concat]
  | append_singleton before last ih =>
      obtain rfl | ⟨before', last', rfl⟩ := List.eq_nil_or_concat' names'
      · rw [keywordChain_concat] at hsame
        refine absurd (hinj (Or.inl rfl) (Or.inr (Or.inl ?_)) hsame.symm) (initString_ne _ _)
        simp [chainMessages_concat]
      · rw [keywordChain_concat, keywordChain_concat] at hsame
        have hmessage := hinj (Or.inr (Or.inl (by simp [chainMessages_concat])))
          (Or.inr (Or.inr (by simp [chainMessages_concat]))) hsame
        have hlength := (keywordChain sha256 (initializeKeywordHash sha256) before).2.trans
          (keywordChain sha256 (initializeKeywordHash sha256) before').2.symm
        obtain ⟨hhash, rfl⟩ := List.append_inj hmessage hlength
        rw [ih (hinj.mono ?_) (Subtype.ext hhash)]
        rintro message (hinit | hmem | hmem)
        · exact Or.inl hinit
        · exact Or.inr (Or.inl (by simp [chainMessages_concat, hmem]))
        · exact Or.inr (Or.inr (by simp [chainMessages_concat, hmem]))

/-- The two chains of a script are the same where no keyword has an ID between the two bounds. -/
theorem namesAbove_eq_iff (keywords : List Definition) :
    namesAbove BYTECODE_ID_STRING_LITERAL keywords =
        namesAbove GridScriptCompiler.BYTECODE_ID_STRING_LITERAL keywords ↔
      ∀ definition ∈ keywords, BYTECODE_ID_STRING_LITERAL < definition.id →
        GridScriptCompiler.BYTECODE_ID_STRING_LITERAL < definition.id := by
  have hsub : (keywords.filter fun definition =>
        GridScriptCompiler.BYTECODE_ID_STRING_LITERAL < definition.id).Sublist
      (keywords.filter fun definition => BYTECODE_ID_STRING_LITERAL < definition.id) := by
    apply List.monotone_filter_right
    intro definition hlarge
    exact decide_eq_true (UInt64.lt_trans (by decide) (of_decide_eq_true hlarge))
  constructor
  · intro hsame definition hmem hsmall
    have hlength := congrArg List.length hsame
    rw [namesAbove, namesAbove, List.length_map, List.length_map] at hlength
    have hin : definition ∈ keywords.filter fun definition =>
        GridScriptCompiler.BYTECODE_ID_STRING_LITERAL < definition.id := by
      rw [hsub.eq_of_length hlength.symm]
      exact List.mem_filter.mpr ⟨hmem, decide_eq_true hsmall⟩
    exact of_decide_eq_true (List.mem_filter.mp hin).2
  · intro hall
    unfold namesAbove
    congr 1
    apply List.filter_congr
    intro definition hmem
    rw [decide_eq_decide]
    exact ⟨hall definition hmem, UInt64.lt_trans (by decide)⟩

/-! ### When the outputs are the same -/

/-- Both compilers read all of the script alike, and none of its keywords enters one hash only: the
standalone compiler hashes IDs above 5, the reference compiler IDs above 122. -/
def CompiledAlike (sha256 : Bytes → Bytes32) (definitions : List Definition) (source : Bytes) :
    Prop :=
  ∃ keywords, readInStep sha256 definitions .between (scriptWords source) = some keywords ∧
    ∀ definition ∈ keywords, BYTECODE_ID_STRING_LITERAL < definition.id →
      GridScriptCompiler.BYTECODE_ID_STRING_LITERAL < definition.id

/-- A script whose reading is settled word by word: a table without reserved IDs, with at most one
parameter for a keyword, plain words, and keywords whose hashes do not collide. -/
structure PlainSource (sha256 : Bytes → Bytes32) (definitions : List Definition) (source : Bytes) :
    Prop where
  table : ValidTable definitions
  params : ∀ definition ∈ definitions, definition.inlineParamCount ≤ 1
  words : PlainWords definitions (scriptWords source)
  hashes : ∀ keywords,
    readInStep sha256 definitions .between (scriptWords source) = some keywords →
      Set.InjOn sha256 (hashedMessages sha256 (namesAbove BYTECODE_ID_STRING_LITERAL keywords)
        (namesAbove GridScriptCompiler.BYTECODE_ID_STRING_LITERAL keywords))

theorem isToken_of_mem (source : SourceText) : ∀ token ∈ scriptWords source.1, IsToken token := by
  intro token htoken
  constructor
  · intro hblank
    have hword := (isWord_of_mem_words isSpace htoken).2 32 hblank
    exact absurd hword (by decide)
  · have hsum := sum_length_words isSpace source.1
    have hmem : token.length ∈ (scriptWords source.1).map List.length := List.mem_map_of_mem htoken
    exact lt_of_le_of_lt ((List.le_sum_of_mem hmem).trans hsum) source.2

/-- The start of both compilers. -/
theorem at_initial :
    ({ mCurrentImageHash := initializeKeywordHash sha256 } : CompileState).At .between ∧
      ({ mKeywordImageHash := GridScriptCompiler.initKeywordHash sha256 } :
        GridScriptCompiler.CompileState).At .between :=
  ⟨⟨rfl, rfl, rfl⟩, rfl, rfl⟩

/-- Of a script that both compile, the outputs are the same if it is compiled alike; for plain scripts
in no other case. -/
theorem compilers_agree_iff {definitions : List Definition} {source : SourceText}
    {result reference : Bytes}
    (hresult : compileWithHeader sha256 definitions 2 source.1 = some result)
    (hreference : GridScriptCompiler.compileWithHeader sha256 definitions source.1 =
      some reference) :
    (CompiledAlike sha256 definitions source.1 → result = reference) ∧
      (PlainSource sha256 definitions source.1 → result = reference →
        CompiledAlike sha256 definitions source.1) := by
  obtain ⟨⟨code, hash⟩, hcompile, rfl⟩ := Option.map_eq_some_iff.mp hresult
  obtain ⟨⟨opcodes, hash'⟩, hcompile', rfl⟩ := Option.map_eq_some_iff.mp hreference
  obtain ⟨st', hrun, hdone⟩ := Option.bind_eq_some_iff.mp hcompile
  obtain ⟨rst', hrun', hdone'⟩ := Option.map_eq_some_iff.mp hcompile'
  cases hdone'
  split_ifs at hdone with hempty
  cases hdone
  have htokens := isToken_of_mem source
  have hblanks : ∀ token ∈ scriptWords source.1, 32 ∉ token := fun token htoken => (htokens token htoken).1
  obtain ⟨hat, hat'⟩ := @at_initial sha256
  have halike (keywords : List Definition)
      (hread : readInStep sha256 definitions .between (scriptWords source.1) = some keywords) :
      st'.mCompiledByteCode = rst'.result ∧
        st'.mCurrentImageHash = keywordChain sha256 (initializeKeywordHash sha256)
          (namesAbove BYTECODE_ID_STRING_LITERAL keywords) ∧
        rst'.mKeywordImageHash = keywordChain sha256 (initializeKeywordHash sha256)
          (namesAbove GridScriptCompiler.BYTECODE_ID_STRING_LITERAL keywords) := by
    have hend := foldlM_readInStep hblanks hread hat hat' hrun hrun'
    obtain ⟨emitted, hemitted, hemitted'⟩ := hend.code
    refine ⟨hemitted.trans hemitted'.symm, ?_, ?_⟩
    · rw [hend.hash, foldl_hashKeyword]
    · rw [hend.referenceHash, foldl_referenceHashKeyword]
      rfl
  have hparts : UInt8.ofNat (192 + 2) :: st'.mCurrentImageHash.1 ++ st'.mCompiledByteCode =
      UInt8.ofNat (192 + 2) :: rst'.mKeywordImageHash.1 ++ rst'.result ↔
        st'.mCurrentImageHash = rst'.mKeywordImageHash ∧ st'.mCompiledByteCode = rst'.result := by
    rw [List.cons_append, List.cons_append, List.cons_inj_right]
    constructor
    · intro hsame
      obtain ⟨hhash, hcode⟩ := List.append_inj hsame
        (st'.mCurrentImageHash.2.trans rst'.mKeywordImageHash.2.symm)
      exact ⟨Subtype.ext hhash, hcode⟩
    · rintro ⟨hhash, hcode⟩
      rw [hhash, hcode]
  dsimp only
  rw [if_pos (le_refl 2), hparts]
  constructor
  · rintro ⟨keywords, hread, hnames⟩
    obtain ⟨hcode, hhash, hhash'⟩ := halike keywords hread
    exact ⟨by rw [hhash, hhash', (namesAbove_eq_iff keywords).mpr hnames], hcode⟩
  · rintro hplain ⟨hhashes, hcode⟩
    obtain ⟨keywords, hread⟩ := readInStep_of_result_eq hplain.table hplain.params hplain.words
      htokens (by simp) hat hat' rfl hrun hrun' hcode
    obtain ⟨-, hhash, hhash'⟩ := halike keywords hread
    refine ⟨keywords, hread, (namesAbove_eq_iff keywords).mp ?_⟩
    exact keywordChain_injOn (hplain.hashes keywords hread)
      (hhash.symm.trans (hhashes.trans hhash'))

end Differ

/-- A directory change, an echo and a registration with a flag. -/
def registrationSource : SourceText := ⟨ascii "cd docs echo  regPool -t SGmD/IVJ", by decide⟩

theorem registration_compiled_alike :
    ∃ bytes,
      compileWithHeader sha256 GridScriptCompiler.initDefinitions 2 registrationSource.1 =
          some bytes ∧
        GridScriptCompiler.compileWithHeader sha256 GridScriptCompiler.initDefinitions
          registrationSource.1 = some bytes := by
  obtain ⟨result, hresult⟩ : ∃ result, compileWithHeader sha256
      GridScriptCompiler.initDefinitions 2 registrationSource.1 = some result :=
    Option.isSome_iff_exists.mp (by decide +kernel)
  obtain ⟨reference, hreference⟩ : ∃ reference, GridScriptCompiler.compileWithHeader sha256
      GridScriptCompiler.initDefinitions registrationSource.1 = some reference :=
    Option.isSome_iff_exists.mp (by decide +kernel)
  have halike : CompiledAlike sha256 GridScriptCompiler.initDefinitions registrationSource.1 :=
    ⟨[GridScriptCompiler.codeword 156 "cd" true 1 false false,
      GridScriptCompiler.codeword 151 "echo" false 0 false false,
      GridScriptCompiler.codeword 292 "regPool" true 1 false true], by decide +kernel, by decide⟩
  obtain rfl := (compilers_agree_iff hresult hreference).1 halike
  exact ⟨result, hresult, hreference⟩

def dataSource : SourceText := ⟨ascii "data x", by decide⟩

/-- A keyword whose ID enters the hash of the standalone compiler only. -/
theorem data_compiled_differently :
    ¬ ∀ (definitions : List Definition) (source : SourceText) (result reference : Bytes),
      compileWithHeader sha256 definitions 2 source.1 = some result →
        GridScriptCompiler.compileWithHeader sha256 definitions source.1 = some reference →
          result = reference := by
  intro hall
  obtain ⟨result, hresult⟩ : ∃ result, compileWithHeader sha256
      GridScriptCompiler.initDefinitions 2 dataSource.1 = some result :=
    Option.isSome_iff_exists.mp (by decide +kernel)
  obtain ⟨reference, hreference⟩ : ∃ reference, GridScriptCompiler.compileWithHeader sha256
      GridScriptCompiler.initDefinitions dataSource.1 = some reference :=
    Option.isSome_iff_exists.mp (by decide +kernel)
  have hsame := hall _ dataSource result reference hresult hreference
  rw [← Option.some_inj, ← hresult, ← hreference] at hsame
  exact absurd hsame (by decide +kernel)

end Gridnet
