import Gridnet.BytecodeFields
import Gridnet.BytecodeLayout

/-! The second half of the round trip of bytecode: `decompile` reads the opcodes of items that keep
step one after another, and joins the words that they show. -/

namespace Gridnet

variable {sha256 : Bytes → Bytes32} {definitions : List Definition}

section Params

/-- Valid binary text stands for some bytes, and for not too many. -/
theorem paramBytes_length {definition : Definition} (hbinary : definition.isBinary = true)
    {text bytes : Bytes} (hbytes : paramBytes sha256 definition text = some bytes) :
    bytes ≠ [] ∧ bytes.length + 3 ≤ 2 * text.length := by
  unfold paramBytes at hbytes
  split_ifs at hbytes with h58 h64
  · obtain ⟨decoded, hdecoded, hdrop⟩ := Option.bind_eq_some_iff.mp hbytes
    have hle := base58Decode_length_le hdecoded
    have hdrop := dropChecksum_length hdrop
    exact ⟨hdrop.2, by omega⟩
  · have hle := decode64_length_le text 0 (-8)
    obtain ⟨hlength, hne⟩ := dropChecksum_length hbytes
    rw [base64Decode] at hlength
    exact ⟨hne, by omega⟩
  · simp [Definition.isBinary, h58, h64] at hbinary

/-- Text that is not binary stands for itself. -/
theorem paramBytes_plain {definition : Definition} (hplain : definition.isBinary = false)
    (text : Bytes) : paramBytes sha256 definition text = some text := by
  simp only [Definition.isBinary, Bool.or_eq_false_iff] at hplain
  simp [paramBytes, hplain]

/-- The content of a parameter is not empty, and its length fits in 64 bits. -/
theorem InlineParam.Valid.content_bounds {definition : Definition} {param : InlineParam}
    (hvalid : param.Valid sha256 definition) (htext : param.text ≠ [])
    (hlength : (param.words.map List.length).sum < 2 ^ 63) :
    param.content sha256 definition ≠ [] ∧
      (param.content sha256 definition).length < 2 ^ 64 := by
  obtain ⟨bytes, hbytes⟩ := hvalid.paramBytes_eq
  have hwords : (param.flag.elim 0 List.length) + param.text.length < 2 ^ 63 := by
    cases hflag : param.flag <;> simpa [InlineParam.words, hflag] using hlength
  have hne : bytes ≠ [] ∧ bytes.length ≤ 2 * param.text.length := by
    cases hbinary : definition.isBinary with
    | true =>
        have := paramBytes_length hbinary hbytes
        exact ⟨this.1, by omega⟩
    | false =>
        rw [paramBytes_plain hbinary] at hbytes
        cases hbytes
        exact ⟨htext, by omega⟩
  have htextpos : 0 < param.text.length := List.length_pos_iff.mpr htext
  rw [InlineParam.content, hbytes, Option.getD_some]
  refine ⟨List.append_ne_nil_of_right_ne_nil _ hne.1, ?_⟩
  cases hflag : param.flag with
  | none =>
      rw [hflag] at hwords
      simp only [Option.elim_none, List.nil_append]
      simp only [Option.elim_none] at hwords
      omega
  | some flag =>
      rw [hflag] at hwords
      simp only [Option.elim_some, List.length_append, List.length_singleton]
      simp only [Option.elim_some] at hwords
      omega

end Params

section Opcodes

/-- The ID of an opcode with content, as the loop of `decompile` looks it up. -/
def lookupID (definitions : List Definition) (id : UInt64) : Option Definition :=
  if 1 ≤ id ∧ id ≤ BYTECODE_ID_STRING_LITERAL then none
  else definitions.find? fun definition => definition.id = id

/-- An opcode with content is read as the words its content stands for. -/
theorem decodeOpcode_setContent {id : UInt64} (hid : id.toNat ≤ 0x7FFF)
    (hcontentful : (1 ≤ id ∧ id ≤ BYTECODE_ID_STRING_LITERAL) ∨
      (lookupID definitions id).any (fun definition => definition.extType) = true)
    {content : Bytes} (hlength : content.length < 2 ^ 64) {words : List Bytes}
    {hash hash' : Bytes32}
    (hwords : contentWords sha256 2 id (lookupID definitions id) content hash = some (words, hash'))
    (before after : Bytes) (resultWords : List Bytes) :
    decodeOpcode sha256 definitions 2 (before ++ (setContent (idBytes id) content ++ after))
        ⟨before.length, resultWords, hash⟩ =
      .ok ⟨(before ++ setContent (idBytes id) content).length, resultWords ++ words, hash'⟩ := by
  obtain ⟨length, hvalue, hread⟩ := getContentLength_lengthBits (before ++ idBytes id)
    (content ++ after) hlength
  have hcontent := getContentBits_content
    (before ++ idBytes id ++ lengthBits content.length) content after hvalue
  have hidRead := getIDBits_idBytes before (lengthBits content.length ++ (content ++ after)) hid
  unfold setContent
  simp only [List.append_assoc, List.length_append] at hread hcontent hidRead ⊢
  unfold decodeOpcode
  dsimp only
  rw [hidRead]
  dsimp only
  rw [← lookupID, if_pos hcontentful, hread]
  dsimp only
  rw [Nat.add_assoc, hcontent]
  dsimp only
  rw [hwords]
  dsimp only
  rw [hvalue]
  simp only [Nat.add_assoc]

/-- The ID of a keyword of the table names the keyword. -/
theorem lookupID_eq (htable : ValidTable definitions) {definition : Definition}
    (hmem : definition ∈ definitions) : lookupID definitions definition.id = some definition := by
  have hspecial : ¬ (1 ≤ definition.id ∧ definition.id ≤ BYTECODE_ID_STRING_LITERAL) := by
    have hlow := (htable.range definition hmem).1
    rintro ⟨-, hle⟩
    have : definition.id.toNat ≤ 5 := UInt64.le_iff_toNat_le.mp hle
    omega
  rw [lookupID, if_neg hspecial]
  exact ListUpdate.find?_key_eq Definition.id htable.ids hmem

/-- A keyword without content is read as its name. -/
theorem decodeOpcode_primitive (htable : ValidTable definitions) {definition : Definition}
    (hmem : definition ∈ definitions) (hext : definition.extType = false) (before after : Bytes)
    (resultWords : List Bytes) (hash : Bytes32) :
    decodeOpcode sha256 definitions 2 (before ++ (idBytes definition.id ++ after))
        ⟨before.length, resultWords, hash⟩ =
      .ok ⟨(before ++ idBytes definition.id).length, resultWords ++ [definition.name],
        hashKeyword sha256 2 hash definition⟩ := by
  have hlookup := lookupID_eq htable hmem
  have hspecial : ¬ (1 ≤ definition.id ∧ definition.id ≤ BYTECODE_ID_STRING_LITERAL) := by
    intro hspecial
    rw [lookupID, if_pos hspecial] at hlookup
    cases hlookup
  unfold decodeOpcode
  dsimp only
  rw [getIDBits_idBytes before after (htable.range definition hmem).2]
  dsimp only
  rw [← lookupID, hlookup, if_neg (by simp [hspecial, hext]), List.length_append]

/-- The content of the opcode of a number is the number. -/
theorem contentWords_number {id : UInt64}
    (hid : id = BYTECODE_ID_UNSIGNED ∨ id = BYTECODE_ID_SIGNED ∨ id = BYTECODE_ID_DOUBLE)
    (definition : Option Definition) (content : Bytes) (hash : Bytes32) :
    contentWords sha256 2 id definition content hash =
      some ([decimal (readNumber content).toNat], hash) := by
  unfold contentWords
  rw [if_pos hid]

/-- The content of a literal is the literal. -/
theorem contentWords_literal {content : Bytes} (hcontent : content ≠ []) (hash : Bytes32) :
    contentWords sha256 2 BYTECODE_ID_STRING_LITERAL none content hash = some ([content], hash) := by
  unfold contentWords
  rw [if_neg (by decide), if_neg (by decide), if_neg hcontent]

/-- The content of the opcode of a keyword is its parameter. -/
theorem contentWords_keyword (htable : ValidTable definitions) {definition : Definition}
    (hmem : definition ∈ definitions) {content : Bytes} (hcontent : content ≠ [])
    (hash : Bytes32) :
    contentWords sha256 2 definition.id (some definition) content hash =
      some ([definition.name, paramText sha256 2 definition content],
        hashKeyword sha256 2 hash definition) := by
  have hlow := (htable.range definition hmem).1
  have hne : ∀ id : UInt64, id.toNat < 6 → definition.id ≠ id := by
    rintro id hid rfl
    omega
  have hnumber : ¬ (definition.id = BYTECODE_ID_UNSIGNED ∨ definition.id = BYTECODE_ID_SIGNED ∨
      definition.id = BYTECODE_ID_DOUBLE) :=
    not_or.mpr ⟨hne _ (by decide), not_or.mpr ⟨hne _ (by decide), hne _ (by decide)⟩⟩
  unfold contentWords
  rw [if_neg hnumber, if_neg (hne _ (by decide))]
  exact if_pos hcontent

theorem incremented_length (bytes : Bytes) : (incremented bytes).length = bytes.length := by
  induction bytes with
  | nil => rfl
  | cons b bytes ih =>
      rw [incremented]
      split_ifs
      · rfl
      · rw [List.length_cons, List.length_cons, ih]

theorem signedContent_length_le {absVal : ℕ} (hvalue : absVal ≤ 2 ^ 63) :
    (signedContent absVal).length ≤ 8 := by
  have hbytes : (numBytes absVal).length ≤ 8 := numBytes_length_le (by omega)
  unfold signedContent
  split_ifs
  · exact numBytes_length_le (by decide)
  · simpa [twosComplement, incremented_length] using hbytes

/-- An item that keeps step, at its place in the text of a script. -/
structure Placed (sha256 : Bytes → Bytes32) (definitions : List Definition) (item : ScriptItem) :
    Prop where
  valid : item.Valid sha256 definitions
  params : item.Complete ∨ item.Omits
  inStep : item.InStep
  isWord : ∀ token ∈ item.words, IsWord isSpace token
  short : (item.words.map List.length).sum < 2 ^ 63

/-- An item of a valid script stands at its place. -/
theorem Reads.placed {source : SourceText} {items : List ScriptItem}
    (hreads : Reads source.1 items) (hscript : ValidScript sha256 definitions items)
    {item : ScriptItem} (hitem : item ∈ items) (hstep : item.InStep) :
    Placed sha256 definitions item where
  valid := hscript.valid item hitem
  params := hscript.complete_or_omits hitem
  inStep := hstep
  isWord _ htoken := hreads.isWord hitem htoken
  short := lt_of_le_of_lt (hreads.sum_length_words_le hitem) source.2

/-- The opcode of an item that keeps step is read as the words it shows. -/
theorem decodeOpcode_item (htable : ValidTable definitions) {item : ScriptItem}
    (hitem : Placed sha256 definitions item) (before after : Bytes) (resultWords : List Bytes)
    (hash : Bytes32) :
    decodeOpcode sha256 definitions 2 (before ++ (item.encode sha256 ++ after))
        ⟨before.length, resultWords, hash⟩ =
      .ok ⟨(before ++ item.encode sha256).length, resultWords ++ item.shown sha256,
        item.hashed sha256 hash⟩ := by
  obtain ⟨hvalid, hparams, hstep, hwords, hlength⟩ := hitem
  cases item with
  | keyword definition spelling params =>
      obtain ⟨hmem, -, hvalid⟩ := hvalid
      cases hext : definition.extType with
      | false =>
          obtain rfl := params_eq_nil hparams hext
          simp only [ScriptItem.encode, ScriptItem.shown, ScriptItem.hashed, hext, List.map_nil,
            Bool.false_eq_true, if_false]
          exact decodeOpcode_primitive htable hmem hext before after resultWords hash
      | true =>
          obtain ⟨-, param, rfl, -⟩ := hstep hext
          have hparam : (param.words.map List.length).sum < 2 ^ 63 := by
            simp only [ScriptItem.words, List.flatMap_singleton, List.map_cons, List.sum_cons]
              at hlength
            omega
          obtain ⟨hcontent, hshort⟩ := (hvalid param (List.mem_singleton_self param)).content_bounds
            (hwords param.text (by simp [ScriptItem.words, InlineParam.words])).1 hparam
          have hlookup := lookupID_eq htable hmem
          have hcontentful : (lookupID definitions definition.id).any
              (fun definition => definition.extType) = true := by
            rw [hlookup]
            exact hext
          have hread : contentWords sha256 2 definition.id (lookupID definitions definition.id)
              (param.content sha256 definition) hash =
                some ([definition.name, param.shown sha256 definition],
                  hashKeyword sha256 2 hash definition) := by
            rw [hlookup]
            exact contentWords_keyword htable hmem hcontent hash
          have hopcode := decodeOpcode_setContent (htable.range definition hmem).2 (.inr hcontentful)
            hshort hread before after resultWords
          simpa [ScriptItem.encode, ScriptItem.shown, ScriptItem.hashed, hext] using hopcode
  | unsignedNr digits =>
      have hshort : (numBytes (digitsValue digits)).length < 2 ^ 64 :=
        lt_of_le_of_lt (numBytes_length_le hvalid.2.2) (by decide)
      have hread : contentWords sha256 2 BYTECODE_ID_UNSIGNED
          (lookupID definitions BYTECODE_ID_UNSIGNED) (numBytes (digitsValue digits)) hash =
            some ([decimal (digitsValue digits)], hash) := by
        rw [contentWords_number (.inl rfl), readNumber_numBytes hvalid.2.2]
      exact decodeOpcode_setContent (by decide) (.inl (by decide)) hshort hread before after
        resultWords
  | signedNr digits =>
      have hshort : (signedContent (digitsValue digits)).length < 2 ^ 64 :=
        lt_of_le_of_lt (signedContent_length_le hvalid.2.2) (by decide)
      exact decodeOpcode_setContent (by decide) (.inl (by decide)) hshort
        (contentWords_number (.inr (.inl rfl)) _ _ hash) before after resultWords
  | word token =>
      have htoken : token ≠ [] := (hwords token List.mem_cons_self).1
      have hshort : token.length < 2 ^ 64 := by
        simp only [ScriptItem.words, List.map_cons, List.map_nil, List.sum_singleton] at hlength
        omega
      exact decodeOpcode_setContent (by decide) (.inl (by decide)) hshort
        (contentWords_literal htoken hash) before after resultWords

variable (sha256) in
theorem encode_ne_nil (item : ScriptItem) : item.encode sha256 ≠ [] := by
  have hcontent : ∀ id content, setContent (idBytes id) content ≠ [] := by
    intro id content
    simp [setContent, idBytes_ne_nil]
  cases item with
  | keyword definition spelling params =>
      rw [ScriptItem.encode]
      split_ifs
      · exact hcontent _ _
      · exact idBytes_ne_nil _
  | unsignedNr digits => exact hcontent _ _
  | signedNr digits => exact hcontent _ _
  | word token => exact hcontent _ _

variable (sha256) in
theorem length_le_encode (items : List ScriptItem) :
    items.length ≤ (items.flatMap (ScriptItem.encode sha256)).length := by
  induction items with
  | nil => simp
  | cons item items ih =>
      have hpos := List.length_pos_iff.mpr (encode_ne_nil sha256 item)
      simp only [List.length_cons, List.flatMap_cons, List.length_append]
      omega

/-- The opcodes of items are read one after another, to the end of the bytecode. -/
theorem decodeLoop_items (htable : ValidTable definitions) {items : List ScriptItem}
    (hitems : ∀ item ∈ items, Placed sha256 definitions item) (before : Bytes) {turns : ℕ}
    (hturns : items.length ≤ turns) (resultWords : List Bytes) (hash : Bytes32) :
    decodeLoop sha256 definitions 2 (before ++ items.flatMap (ScriptItem.encode sha256)) turns
        ⟨before.length, resultWords, hash⟩ =
      .ok ⟨(before ++ items.flatMap (ScriptItem.encode sha256)).length,
        resultWords ++ items.flatMap (ScriptItem.shown sha256),
        items.foldl (ScriptItem.hashed sha256) hash⟩ := by
  induction items generalizing before turns resultWords hash with
  | nil =>
      cases turns with
      | zero => simp [decodeLoop]
      | succ turns => simp [decodeLoop]
  | cons item items ih =>
      cases turns with
      | zero => exact absurd hturns (by simp)
      | succ turns =>
          have hread := decodeOpcode_item htable (hitems item List.mem_cons_self) before
            (items.flatMap (ScriptItem.encode sha256)) resultWords hash
          have hrest := ih (fun item hitem => hitems item (List.mem_cons_of_mem _ hitem))
            (before ++ item.encode sha256) (Nat.le_of_succ_le_succ hturns) (resultWords ++ item.shown sha256)
            (item.hashed sha256 hash)
          have hmore : before.length <
              (before ++ (item.encode sha256 ++ items.flatMap (ScriptItem.encode sha256))).length := by
            have hpos := List.length_pos_iff.mpr (encode_ne_nil sha256 item)
            simp only [List.length_append]
            omega
          rw [List.flatMap_cons, decodeLoop, if_pos hmore, hread]
          simpa only [List.append_assoc, List.flatMap_cons, List.foldl_cons] using hrest

/-- `decompile` on the opcodes of items, after any hash in the header. -/
theorem decompile_items (htable : ValidTable definitions) {items : List ScriptItem}
    (hitems : ∀ item ∈ items, Placed sha256 definitions item) (hash : Bytes32) :
    decompile sha256 definitions (194 :: hash.1 ++ items.flatMap (ScriptItem.encode sha256)) =
      if (items.foldl (ScriptItem.hashed sha256) (initializeKeywordHash sha256)).1 ≠ hash.1 ∨
          joinWords (items.flatMap (ScriptItem.shown sha256)) = [] then .error .rejected
      else .ok (joinWords (items.flatMap (ScriptItem.shown sha256))) := by
  have hlength : (194 :: hash.1).length = 33 := by
    rw [List.length_cons, hash.2]
  have hslice : ((194 :: hash.1 ++ items.flatMap (ScriptItem.encode sha256)).drop 1).take 32 =
      hash.1 := by
    rw [List.cons_append, List.drop_one, List.tail_cons, List.take_left' hash.2]
  have hturns : items.length ≤
      (194 :: hash.1 ++ items.flatMap (ScriptItem.encode sha256)).length := by
    have hle := length_le_encode sha256 items
    rw [List.length_append]
    omega
  have hloop := decodeLoop_items htable hitems (194 :: hash.1) hturns []
    (initializeKeywordHash sha256)
  rw [hlength] at hloop
  have hshort : ¬ (194 :: hash.1 ++ items.flatMap (ScriptItem.encode sha256)).length < 33 := by
    rw [List.length_append, hlength]
    omega
  rw [List.cons_append] at hloop hslice hshort ⊢
  unfold decompile
  have hversion : (if (192 : UInt8) ≤ 194 then 2 else 1) = 2 := rfl
  simp only [hversion, true_and, if_neg hshort, if_true, hloop, hslice, List.nil_append]
  by_cases hhash : (items.foldl (ScriptItem.hashed sha256) (initializeKeywordHash sha256)).1 = hash.1
  · simp [hhash]
  · simp [hhash]

end Opcodes

/-- The text of a script with an item is not empty. -/
theorem canonical_text_ne_nil {item : ScriptItem} (hitem : Placed sha256 definitions item)
    (rest : List ScriptItem) :
    List.intercalate [32] ((item :: rest).flatMap ScriptItem.canonical) ≠ [] := by
  obtain ⟨token, tokens, hcanonical⟩ := List.exists_cons_of_ne_nil item.canonical_ne_nil
  have htoken := hitem.valid.isWord_canonical hitem.isWord token (by simp [hcanonical])
  rw [List.flatMap_cons, hcanonical, List.cons_append]
  exact intercalate_ne_nil [32] htoken.1 _

/-- The header is the version and the hash. -/
theorem compileWithHeader_eq {source code : Bytes} {hash : Bytes32}
    (hcompile : compile sha256 definitions 2 source = some (code, hash)) :
    compileWithHeader sha256 definitions 2 source = some (194 :: hash.1 ++ code) := by
  rw [compileWithHeader, hcompile]
  rfl

/-- A script whose items all keep step comes back as the words they show. -/
theorem roundTrips_iff_shown (htable : ValidTable definitions) {source : SourceText}
    {items : List ScriptItem} (hscript : ValidScript sha256 definitions items)
    (hreads : Reads source.1 items) (hstep : ∀ item ∈ items, item.InStep) :
    RoundTrips sha256 definitions source.1 items ↔
      joinWords (items.flatMap (ScriptItem.shown sha256)) =
        List.intercalate [32] (items.flatMap ScriptItem.canonical) := by
  have hplaced : ∀ item ∈ items, Placed sha256 definitions item :=
    fun item hitem => hreads.placed hscript hitem (hstep item hitem)
  have hcompile := compile_items htable hscript hreads hstep
  cases items with
  | nil =>
      have hnone : compileWithHeader sha256 definitions 2 source.1 = none := by
        rw [compileWithHeader, hcompile]
        rfl
      simp [RoundTrips, hnone, joinWords, List.intercalate]
  | cons item rest =>
      have hcode : (item :: rest).flatMap (ScriptItem.encode sha256) ≠ [] := by
        rw [List.flatMap_cons]
        exact List.append_ne_nil_of_left_ne_nil (encode_ne_nil sha256 item) _
      have hsource := canonical_text_ne_nil (hplaced item List.mem_cons_self) rest
      rw [if_neg hcode] at hcompile
      unfold RoundTrips
      simp only [compileWithHeader_eq hcompile, Option.some.injEq, forall_eq']
      rw [decompile_items htable hplaced]
      by_cases hshown : joinWords ((item :: rest).flatMap (ScriptItem.shown sha256)) = []
      · rw [if_pos (.inr hshown), hshown]
        exact ⟨fun h => absurd h (by simp), fun h => absurd h.symm hsource⟩
      · rw [if_neg (fun h => h.elim (fun hne => hne rfl) hshown)]
        exact ⟨Except.ok.inj, congrArg Except.ok⟩

/-- If the last keyword is dropped, a script can come back only as the words that the items before
it show. -/
theorem shown_of_roundTrips_dropped (htable : ValidTable definitions) {source : SourceText}
    {items : List ScriptItem} {item : ScriptItem}
    (hscript : ValidScript sha256 definitions (items ++ [item]))
    (hreads : Reads source.1 (items ++ [item])) (hstep : ∀ item ∈ items, item.InStep)
    (hdropped : item.Dropped) (hitems : items ≠ [])
    (hround : RoundTrips sha256 definitions source.1 (items ++ [item])) :
    joinWords (items.flatMap (ScriptItem.shown sha256)) =
      List.intercalate [32] ((items ++ [item]).flatMap ScriptItem.canonical) := by
  have hplaced : ∀ item ∈ items, Placed sha256 definitions item :=
    fun item hitem => hreads.placed hscript (List.mem_append_left _ hitem) (hstep item hitem)
  have hcode : items.flatMap (ScriptItem.encode sha256) ≠ [] := by
    obtain ⟨first, rest, rfl⟩ := List.exists_cons_of_ne_nil hitems
    rw [List.flatMap_cons]
    exact List.append_ne_nil_of_left_ne_nil (encode_ne_nil sha256 first) _
  have hcompile := compile_dropped htable hscript hreads hstep hdropped
  rw [if_neg hcode] at hcompile
  have hdecompile := hround _ (compileWithHeader_eq hcompile)
  rw [decompile_items htable hplaced] at hdecompile
  split_ifs at hdecompile
  exact Except.ok.inj hdecompile

end Gridnet
