import Gridnet.BytecodeRoundTrip
import Gridnet.Sha256

/-! Which scripts come back from bytecode: those whose items all survive, and no others that keep
step. -/

namespace Gridnet

variable {sha256 : Bytes → Bytes32} {definitions : List Definition}

/-- The text of bytes in the encoding a keyword asks for. -/
def binaryText (sha256 : Bytes → Bytes32) (definition : Definition) (bytes : Bytes) : Bytes :=
  if definition.hasBase58BinaryInLineParams then base58CheckEncode sha256 bytes
  else base64CheckEncode sha256 bytes

/-- A parameter that is read back as it was written. Of binary text: it is not taken for a flag, the
bytes it stands for are written as this very text again, and either its flag is short enough to be
found or, without a flag, those bytes do not begin like one. -/
def InlineParam.Survives (sha256 : Bytes → Bytes32) (definition : Definition)
    (param : InlineParam) : Prop :=
  definition.isBinary = true →
    flagR param.text = false ∧ (∀ flag ∈ param.flag, flag.length < 64) ∧
      ∀ bytes, paramBytes sha256 definition param.text = some bytes →
        binaryText sha256 definition bytes = param.text ∧
        (param.flag = none → spacePos 2 bytes = 0)

/-- An item that is read back as it was written: a keyword of extended type with exactly one of the
parameters it asks for, and this one survives; an unsigned number without leading zeros; a word that
is no number. -/
def ScriptItem.Survives (sha256 : Bytes → Bytes32) : ScriptItem → Prop
  | keyword definition _ params =>
      definition.extType = true → 0 < definition.inlineParamCount.toInt32.toInt ∧
        ∃ param, params = [param] ∧ param.Survives sha256 definition
  | unsignedNr digits => digits = [48] ∨ digits.head? ≠ some 48
  | signedNr _ => False
  | word _ => True

theorem ScriptItem.Survives.inStep {item : ScriptItem} (hitem : item.Survives sha256) :
    item.InStep := by
  cases item with
  | keyword definition spelling params =>
      intro hext
      obtain ⟨hcount, param, hparams, hparam⟩ := hitem hext
      exact ⟨hcount, param, hparams, fun hbinary => (hparam hbinary).1⟩
  | unsignedNr digits => trivial
  | signedNr digits => trivial
  | word token => trivial

section Flags

theorem ne_blank_of_isAlnum {c : UInt8} (hc : isAlnum c = true) : c ≠ 32 := by
  rintro rfl
  exact absurd hc (by decide)

theorem findIdx?_blank {name : Bytes} (hname : name.all isAlnum = true) (rest : Bytes) :
    (name ++ 32 :: rest).findIdx? (· = 32) = some name.length := by
  induction name with
  | nil => simp [List.findIdx?_cons]
  | cons c name ih =>
      obtain ⟨hc, hname⟩ : isAlnum c = true ∧ name.all isAlnum = true := by simpa using hname
      rw [List.cons_append, List.findIdx?_cons, if_neg (by simpa using ne_blank_of_isAlnum hc),
        ih hname, Option.map_some, List.length_cons]

/-- A flag, and what it consists of. -/
theorem flagR_cons {flag : Bytes} (hflag : flagR flag = true) :
    ∃ c name, flag = c :: name ∧ (c = 45 ∨ c = 43) ∧ name ≠ [] ∧ name.all isAlnum = true := by
  cases flag with
  | nil => cases hflag
  | cons c name => exact ⟨c, name, rfl, by simpa [flagR, and_assoc] using hflag⟩

/-- A flag of less than 64 characters is found before the bytes. -/
theorem spacePos_flag {flag : Bytes} (hflag : flagR flag = true) (hshort : flag.length < 64)
    {bytes : Bytes} (hbytes : bytes ≠ []) : spacePos 2 (flag ++ 32 :: bytes) = flag.length := by
  obtain ⟨c, name, rfl, hc, hne, hname⟩ := flagR_cons hflag
  have hlong : 3 < (c :: (name ++ 32 :: bytes)).length := by
    have hname := List.length_pos_iff.mpr hne
    have hbytes := List.length_pos_iff.mpr hbytes
    simp only [List.length_cons, List.length_append]
    omega
  have hfound : ((name ++ 32 :: bytes).take 63).findIdx? (· = 32) = some name.length := by
    rw [List.length_cons] at hshort
    obtain ⟨room, hroom⟩ := Nat.exists_eq_add_of_lt (show name.length < 63 by omega)
    rw [List.take_append, List.take_of_length_le (by omega),
      show 63 - name.length = room + 1 by omega, List.take_succ_cons]
    exact findIdx?_blank hname _
  rw [List.cons_append]
  unfold spacePos
  dsimp only
  rw [if_pos ⟨by decide, hlong, hc⟩, hfound]
  dsimp only
  rw [List.take_left, if_pos hname, List.length_cons]

/-- A longer one is not. -/
theorem spacePos_long {flag : Bytes} (hflag : flagR flag = true) (hlong : 64 ≤ flag.length)
    (rest : Bytes) : spacePos 2 (flag ++ rest) = 0 := by
  obtain ⟨c, name, rfl, -, -, hname⟩ := flagR_cons hflag
  have hnone : ((name ++ rest).take 63).findIdx? (· = 32) = none := by
    rw [List.length_cons] at hlong
    rw [List.take_append_of_le_length (by omega), List.findIdx?_eq_none_iff]
    intro d hd
    have hd := List.all_eq_true.mp hname d (List.mem_of_mem_take hd)
    simpa using ne_blank_of_isAlnum hd
  rw [List.cons_append]
  unfold spacePos
  dsimp only
  rw [hnone]
  split_ifs <;> rfl

/-- What is found is like a flag, its name possibly empty. -/
theorem spacePos_pos {content : Bytes} (hpos : 0 < spacePos 2 content) :
    ∃ c name rest, content = c :: name ++ 32 :: rest ∧ (c = 45 ∨ c = 43) ∧
      name.all isAlnum = true ∧ spacePos 2 content = (c :: name).length := by
  cases content with
  | nil => exact absurd hpos (by decide)
  | cons c content =>
      unfold spacePos at hpos ⊢
      dsimp only at hpos ⊢
      split_ifs at hpos ⊢ with hsign
      · cases hfind : (content.take 63).findIdx? (· = 32) with
        | none => simp [hfind] at hpos
        | some i =>
            rw [hfind] at hpos
            dsimp only at hpos ⊢
            split_ifs at hpos ⊢ with hname
            · obtain ⟨hi, hblank, -⟩ := List.findIdx?_eq_some_iff_getElem.mp hfind
              have hlt : i < content.length := by
                rw [List.length_take] at hi
                omega
              have hat : content[i] = 32 := by simpa using hblank
              refine ⟨c, content.take i, content.drop (i + 1), ?_, hsign.2.2, hname, ?_⟩
              · rw [List.cons_append, ← hat, ← List.drop_eq_getElem_cons hlt, List.take_append_drop]
              · rw [List.length_cons, List.length_take, Nat.min_eq_left hlt.le]
            · exact absurd hpos (Nat.lt_irrefl 0)
      · exact absurd hpos (Nat.lt_irrefl 0)

end Flags

section Texts

theorem paramText_binary {definition : Definition} (hbinary : definition.isBinary = true)
    (content : Bytes) :
    paramText sha256 2 definition content =
      (if 0 < spacePos 2 content then content.take (spacePos 2 content + 1) else []) ++
        binaryText sha256 definition
          (if 0 < spacePos 2 content then content.drop (spacePos 2 content + 1) else content) := by
  unfold paramText
  rw [← Definition.isBinary, if_pos hbinary]
  rfl

/-- Bytes that do not begin like a flag are all encoded. -/
theorem paramText_of_spacePos_zero {definition : Definition} (hbinary : definition.isBinary = true)
    {content : Bytes} (hzero : spacePos 2 content = 0) :
    paramText sha256 2 definition content = binaryText sha256 definition content := by
  rw [paramText_binary hbinary, hzero, if_neg (Nat.lt_irrefl 0), if_neg (Nat.lt_irrefl 0),
    List.nil_append]

/-- What begins like a flag stays, and the bytes after it are encoded. -/
theorem paramText_of_spacePos {definition : Definition} (hbinary : definition.isBinary = true)
    {start bytes : Bytes} (hstart : start ≠ [])
    (hpos : spacePos 2 (start ++ 32 :: bytes) = start.length) :
    paramText sha256 2 definition (start ++ 32 :: bytes) =
      start ++ 32 :: binaryText sha256 definition bytes := by
  have hposition : 0 < start.length := List.length_pos_iff.mpr hstart
  have hsplit : start ++ 32 :: bytes = (start ++ [32]) ++ bytes := by simp
  have hlength : start.length + 1 = (start ++ [32]).length := by simp
  rw [paramText_binary hbinary, hpos, if_pos hposition, if_pos hposition, hsplit, hlength,
    List.take_left, List.drop_left, List.append_assoc, List.singleton_append]

/-- The text of bytes is one word. -/
theorem isWord_binaryText (definition : Definition) (bytes : Bytes) :
    IsWord isSpace (binaryText sha256 definition bytes) := by
  have hsum : ∀ hash : Bytes32, bytes ++ hash.1.take 4 ≠ [] := by
    intro hash h
    have hlength := congrArg List.length h
    simp only [List.length_append, List.length_take, hash.2, List.length_nil] at hlength
    omega
  unfold binaryText
  split_ifs
  · have halphabet : ∀ c ∈ 0 :: BASE58_CHARS, isSpace c = false := by decide +kernel
    exact ⟨base58Encode_ne_nil (hsum _), fun c hc => halphabet c (base58Encode_chars _ c hc)⟩
  · have halphabet : ∀ c ∈ 61 :: 0 :: BASE64_CHARS, isSpace c = false := by decide +kernel
    refine ⟨?_, fun c hc => halphabet c (base64Encode_chars _ c hc)⟩
    obtain ⟨c, data, hdata⟩ := List.exists_cons_of_ne_nil (hsum (sha256 (sha256 bytes).1))
    intro hnil
    have hhead := base64Encode_head c data
    rw [← hdata, ← base64CheckEncode, hnil] at hhead
    cases hhead

/-- The text of bytes that begin with a sign does not begin with one. -/
theorem binaryText_head_ne {c : UInt8} (hc : c = 45 ∨ c = 43) (definition : Definition)
    (bytes : Bytes) : (binaryText sha256 definition (c :: bytes)).head? ≠ some c := by
  unfold binaryText
  split_ifs
  · have halphabet : ∀ d ∈ 0 :: BASE58_CHARS, d ≠ 45 ∧ d ≠ 43 := by decide +kernel
    intro hhead
    have hmem := base58Encode_chars _ c (List.mem_of_head? hhead)
    obtain ⟨hminus, hplus⟩ := halphabet c hmem
    exact hc.elim hminus hplus
  · rw [base64CheckEncode, List.cons_append, base64Encode_head]
    obtain rfl | rfl := hc
    · decide
    · decide

/-- A sign alone is no binary text. -/
theorem paramBytes_sign {definition : Definition} (hbinary : definition.isBinary = true)
    {c : UInt8} (hc : c = 45 ∨ c = 43) : paramBytes sha256 definition [c] = none := by
  unfold paramBytes
  split_ifs with h58 h64
  · have hdecode : base58Decode [c] = none := by
      obtain rfl | rfl := hc <;> decide
    rw [base58CheckDecode, hdecode]
    rfl
  · have hdecode : base64Decode [c] = [] := by
      obtain rfl | rfl := hc <;> decide
    rw [base64CheckDecode, hdecode]
    rfl
  · simp [Definition.isBinary, h58, h64] at hbinary

end Texts

section Params

variable {definition : Definition} {param : InlineParam}

theorem isWord_flag {c : UInt8} {name : Bytes} (hc : c = 45 ∨ c = 43)
    (hname : name.all isAlnum = true) : IsWord isSpace (c :: name) := by
  refine ⟨List.cons_ne_nil _ _, ?_⟩
  intro d hd
  obtain rfl | hd := List.mem_cons.mp hd
  · obtain rfl | rfl := hc <;> decide
  · apply isSpace_of_le
    have halnum := List.all_eq_true.mp hname d hd
    simp only [isAlnum, isDigit, Bool.or_eq_true, Bool.and_eq_true, decide_eq_true_eq,
      UInt8.le_iff_toNat_le] at halnum
    obtain (⟨hlow, -⟩ | ⟨hlow, -⟩) | ⟨hlow, -⟩ := halnum
    · exact le_trans (by decide) hlow
    · exact le_trans (by decide) hlow
    · exact le_trans (by decide) hlow

/-- A parameter that survives is shown as it was written. -/
theorem InlineParam.Survives.shown_eq (hvalid : param.Valid sha256 definition)
    (hsurvives : param.Survives sha256 definition) :
    param.shown sha256 definition = List.intercalate [32] param.words := by
  obtain ⟨bytes, hbytes⟩ := hvalid.paramBytes_eq
  obtain ⟨flag, text⟩ := param
  cases hbinary : definition.isBinary with
  | false =>
      have hflag : flag = none := by simpa [InlineParam.Valid, hbinary] using hvalid
      have hplain := hbinary
      simp only [Definition.isBinary, Bool.or_eq_false_iff] at hplain
      simp [InlineParam.shown, InlineParam.content, InlineParam.words, paramBytes_plain hbinary,
        paramText, hplain, hflag, List.intercalate]
  | true =>
      obtain ⟨-, hshort, hbytes'⟩ := hsurvives hbinary
      obtain ⟨htext, hnone⟩ := hbytes' bytes hbytes
      dsimp only at hbytes htext hnone hshort
      cases flag with
      | none =>
          have hzero := hnone rfl
          simp [InlineParam.shown, InlineParam.content, InlineParam.words, hbytes,
            paramText_of_spacePos_zero hbinary hzero, htext, List.intercalate]
      | some flag =>
          have hflag : flagR flag = true := by
            simp only [InlineParam.Valid, hbinary, if_true] at hvalid
            exact hvalid.2 flag rfl
          have hpos := spacePos_flag hflag (hshort flag rfl) (paramBytes_length hbinary hbytes).1
          have hne : flag ≠ [] := by
            rintro rfl
            cases hflag
          simp [InlineParam.shown, InlineParam.content, InlineParam.words, hbytes,
            paramText_of_spacePos hbinary hne hpos, htext, List.intercalate]

/-- A parameter that is shown with the words it was written with survives. -/
theorem param_survives_of_words (hvalid : param.Valid sha256 definition)
    (hnoflag : definition.isBinary = true → flagR param.text = false) {rest rest' : List Bytes}
    (hsame : words isSpace (param.shown sha256 definition) ++ rest = param.words ++ rest') :
    param.Survives sha256 definition := by
  intro hbinary
  obtain ⟨bytes, hbytes⟩ := hvalid.paramBytes_eq
  obtain ⟨flag, text⟩ := param
  refine ⟨hnoflag hbinary, ?_⟩
  simp only [hbytes, Option.some.injEq, forall_eq']
  dsimp only at hbytes
  cases flag with
  | none =>
      refine ⟨by simp, ?_⟩
      have hcontent : InlineParam.content sha256 definition ⟨none, text⟩ = bytes := by
        simp [InlineParam.content, hbytes]
      rw [InlineParam.shown, hcontent] at hsame
      obtain hzero | hpos := Nat.eq_zero_or_pos (spacePos 2 bytes)
      · rw [paramText_of_spacePos_zero hbinary hzero,
          words_of_isWord isSpace (isWord_binaryText definition bytes)] at hsame
        exact ⟨(List.cons.inj hsame).1, fun _ => hzero⟩
      · obtain ⟨c, name, tail, rfl, hc, hname, hlength⟩ := spacePos_pos hpos
        rw [paramText_of_spacePos hbinary (List.cons_ne_nil c name) hlength,
          words_append_cons isSpace (by decide),
          words_of_isWord isSpace (isWord_flag hc hname)] at hsame
        have htext : c :: name = text := (List.cons.inj hsame).1
        subst htext
        cases name with
        | nil => exact absurd (hbytes.symm.trans (paramBytes_sign hbinary hc)) (by simp)
        | cons d name =>
            have hflag : flagR (c :: d :: name) = true := by simpa [flagR, hc] using hname
            exact absurd hflag (by simp [hnoflag hbinary])
  | some flag =>
      have hflag : flagR flag = true := by
        simp only [InlineParam.Valid, hbinary, if_true] at hvalid
        exact hvalid.2 flag rfl
      have hcontent : InlineParam.content sha256 definition ⟨some flag, text⟩ =
          flag ++ 32 :: bytes := by
        simp [InlineParam.content, hbytes]
      obtain ⟨c, name, rfl, hc, hne, hname⟩ := flagR_cons hflag
      rw [InlineParam.shown, hcontent] at hsame
      by_cases hshort : (c :: name).length < 64
      · have hpos := spacePos_flag hflag hshort (paramBytes_length hbinary hbytes).1
        rw [paramText_of_spacePos hbinary (List.cons_ne_nil c name) hpos,
          words_append_cons isSpace (by decide), words_of_isWord isSpace (isWord_flag hc hname),
          words_of_isWord isSpace (isWord_binaryText definition bytes)] at hsame
        have htext : binaryText sha256 definition bytes = text :=
          (List.cons.inj (List.cons.inj hsame).2).1
        exact ⟨by simpa using hshort, htext, by simp⟩
      · have hzero := spacePos_long hflag (Nat.le_of_not_lt hshort) (32 :: bytes)
        rw [paramText_of_spacePos_zero hbinary hzero,
          words_of_isWord isSpace (isWord_binaryText definition _)] at hsame
        have htext : binaryText sha256 definition (c :: name ++ 32 :: bytes) = c :: name :=
          (List.cons.inj hsame).1
        exact absurd (congrArg List.head? htext) (binaryText_head_ne hc definition _)

end Params

section Items

theorem isWord_decimal (n : ℕ) : IsWord isSpace (decimal n) :=
  ⟨decimal_ne_nil n, fun c hc => isSpace_of_le (le_trans (by decide) (decimal_digits n c hc).1)⟩

theorem InlineParam.words_ne_nil (param : InlineParam) : param.words ≠ [] := by
  simp [InlineParam.words]

theorem ScriptItem.shown_ne_nil (item : ScriptItem) : item.shown sha256 ≠ [] := by
  cases item <;> simp [ScriptItem.shown]

/-- An item that survives is shown as it is written in canonical spelling. -/
theorem ScriptItem.Survives.shown_eq {item : ScriptItem} (hitem : Placed sha256 definitions item)
    (hsurvives : item.Survives sha256) :
    List.intercalate [32] (item.shown sha256) = List.intercalate [32] item.canonical ∧
      ∀ token ∈ item.shown sha256, token ≠ [] := by
  obtain ⟨hvalid, hparams, -, hwords, -⟩ := hitem
  have hcanonical := hvalid.isWord_canonical hwords
  cases item with
  | keyword definition spelling params =>
      have hname := (hcanonical definition.name List.mem_cons_self).1
      cases hext : definition.extType with
      | false =>
          obtain rfl := params_eq_nil hparams hext
          exact ⟨rfl, by simpa [ScriptItem.shown] using hname⟩
      | true =>
          obtain ⟨-, param, rfl, hparam⟩ := hsurvives hext
          have hshown := hparam.shown_eq (hvalid.2.2 param (List.mem_singleton_self param))
          have hne : param.shown sha256 definition ≠ [] := by
            obtain ⟨token, tokens, htokens⟩ := List.exists_cons_of_ne_nil param.words_ne_nil
            have htoken := hwords token (by simp [ScriptItem.words, htokens])
            rw [hshown, htokens]
            exact intercalate_ne_nil [32] htoken.1 tokens
          constructor
          · rw [ScriptItem.shown, ScriptItem.canonical, List.map_singleton,
              List.flatMap_singleton, List.intercalate_cons_of_ne_nil (List.cons_ne_nil _ _),
              List.intercalate_singleton, hshown,
              List.intercalate_cons_of_ne_nil param.words_ne_nil]
          · simpa [ScriptItem.shown] using ⟨hname, hne⟩
  | unsignedNr digits =>
      have hdecimal := decimal_digitsValue hvalid.2.1 hsurvives
      rw [ScriptItem.shown, hdecimal]
      exact ⟨rfl, fun token htoken => (hcanonical token htoken).1⟩
  | signedNr digits => exact hsurvives.elim
  | word token => exact ⟨rfl, fun token htoken => (hcanonical token htoken).1⟩

/-- An item that is shown with the words of its canonical spelling survives. -/
theorem survives_of_words {item : ScriptItem} (hitem : Placed sha256 definitions item)
    {rest rest' : List Bytes}
    (hsame : (item.shown sha256).flatMap (words isSpace) ++ rest = item.canonical ++ rest') :
    item.Survives sha256 := by
  obtain ⟨hvalid, hparams, hstep, hwords, -⟩ := hitem
  have hcanonical := hvalid.isWord_canonical hwords
  cases item with
  | keyword definition spelling params =>
      intro hext
      obtain ⟨hcount, param, rfl, hnoflag⟩ := hstep hext
      refine ⟨hcount, param, rfl, ?_⟩
      have hname := hcanonical definition.name List.mem_cons_self
      rw [ScriptItem.shown, ScriptItem.canonical, List.map_singleton, List.flatMap_cons,
        List.flatMap_singleton, List.flatMap_singleton, words_of_isWord isSpace hname,
        List.singleton_append, List.cons_append, List.cons_append] at hsame
      exact param_survives_of_words (hvalid.2.2 param (List.mem_singleton_self param)) hnoflag
        (List.cons.inj hsame).2
  | unsignedNr digits =>
      rw [ScriptItem.shown, List.flatMap_singleton, words_of_isWord isSpace (isWord_decimal _)]
        at hsame
      have hdigits : decimal (digitsValue digits) = digits := (List.cons.inj hsame).1
      have hhead := decimal_head (digitsValue digits)
      rwa [hdigits] at hhead
  | signedNr digits =>
      rw [ScriptItem.shown, List.flatMap_singleton, words_of_isWord isSpace (isWord_decimal _)]
        at hsame
      have hdigits := (List.cons.inj hsame).1
      have hminus := (decimal_digits _ 45 (hdigits ▸ List.mem_cons_self)).1
      exact absurd hminus (by decide)
  | word token => trivial

/-- The words of the text that is shown for an item that survives. -/
theorem ScriptItem.Survives.words_eq {item : ScriptItem} (hitem : Placed sha256 definitions item)
    (hsurvives : item.Survives sha256) :
    (item.shown sha256).flatMap (Gridnet.words isSpace) = item.canonical := by
  have hcanonical := hitem.valid.isWord_canonical hitem.isWord
  have hblank : isSpace 32 = true := by decide
  rw [← words_intercalate isSpace hblank, (hsurvives.shown_eq hitem).1,
    words_intercalate isSpace hblank]
  exact flatMap_words_of_isWord isSpace hcanonical

end Items

section Scripts

/-- The words of joined words are those of each of them: empty ones have none. -/
theorem words_joinWords (resultWords : List Bytes) :
    words isSpace (joinWords resultWords) = resultWords.flatMap (words isSpace) := by
  have hfilter : (resultWords.filter (· ≠ [])).flatMap (words isSpace) =
      resultWords.flatMap (words isSpace) := by
    induction resultWords with
    | nil => rfl
    | cons w resultWords ih =>
        by_cases hw : w = []
        · simpa [hw] using ih
        · simpa [hw] using ih
  rw [← hfilter, ← words_intercalate isSpace (by decide : isSpace 32 = true)]
  rfl

theorem joinWords_eq {resultWords : List Bytes} (hne : ∀ w ∈ resultWords, w ≠ []) :
    joinWords resultWords = List.intercalate [32] resultWords := by
  have hfilter : resultWords.filter (· ≠ []) = resultWords :=
    List.filter_eq_self.mpr fun w hw => by simpa using hne w hw
  rw [joinWords, hfilter]
  rfl

/-- Items that are shown with the words of their canonical spelling, and with whatever words after
them, survive. -/
theorem items_survive_of_words {items : List ScriptItem}
    (hitems : ∀ item ∈ items, Placed sha256 definitions item) {rest : List Bytes}
    (hsame : (items.flatMap (ScriptItem.shown sha256)).flatMap (words isSpace) =
      items.flatMap ScriptItem.canonical ++ rest) :
    (∀ item ∈ items, item.Survives sha256) ∧ rest = [] := by
  induction items with
  | nil => exact ⟨by simp, by simpa using hsame.symm⟩
  | cons item items ih =>
      have hitem := hitems item List.mem_cons_self
      rw [List.flatMap_cons, List.flatMap_append, List.flatMap_cons, List.append_assoc] at hsame
      have hfirst := survives_of_words hitem hsame
      rw [hfirst.words_eq hitem, List.append_cancel_left_eq] at hsame
      obtain ⟨hsurvive, hrest⟩ := ih (fun item hmem => hitems item (List.mem_cons_of_mem _ hmem)) hsame
      exact ⟨List.forall_mem_cons.mpr ⟨hfirst, hsurvive⟩, hrest⟩

/-- The words of a script in canonical spelling are its words. -/
theorem words_canonical {items : List ScriptItem}
    (hitems : ∀ item ∈ items, Placed sha256 definitions item) :
    (items.flatMap ScriptItem.canonical).flatMap (words isSpace) =
      items.flatMap ScriptItem.canonical := by
  apply flatMap_words_of_isWord
  intro token htoken
  obtain ⟨item, hitem, htoken⟩ := List.mem_flatMap.mp htoken
  exact (hitems item hitem).valid.isWord_canonical (hitems item hitem).isWord token htoken

/-- What is shown for items is their canonical text exactly when all of them survive. -/
theorem shown_eq_iff {items : List ScriptItem}
    (hitems : ∀ item ∈ items, Placed sha256 definitions item) :
    joinWords (items.flatMap (ScriptItem.shown sha256)) =
        List.intercalate [32] (items.flatMap ScriptItem.canonical) ↔
      ∀ item ∈ items, item.Survives sha256 := by
  constructor
  · intro hsame
    have hwords := congrArg (words isSpace) hsame
    rw [words_joinWords, words_intercalate isSpace (by decide), words_canonical hitems] at hwords
    exact (items_survive_of_words hitems (hwords.trans (List.append_nil _).symm)).1
  · intro hsurvive
    have hshown : ∀ item ∈ items, List.intercalate [32] (item.shown sha256) =
        List.intercalate [32] item.canonical :=
      fun item hitem => ((hsurvive item hitem).shown_eq (hitems item hitem)).1
    have hne : ∀ token ∈ items.flatMap (ScriptItem.shown sha256), token ≠ [] := by
      intro token htoken
      obtain ⟨item, hitem, htoken⟩ := List.mem_flatMap.mp htoken
      exact ((hsurvive item hitem).shown_eq (hitems item hitem)).2 token htoken
    calc joinWords (items.flatMap (ScriptItem.shown sha256))
        = List.intercalate [32] (items.flatMap (ScriptItem.shown sha256)) := joinWords_eq hne
      _ = List.intercalate [32]
            (items.map fun item => List.intercalate [32] (item.shown sha256)) :=
          intercalate_flatMap [32] fun item _ => item.shown_ne_nil
      _ = List.intercalate [32] (items.map fun item => List.intercalate [32] item.canonical) := by
          rw [List.map_congr_left hshown]
      _ = List.intercalate [32] (items.flatMap ScriptItem.canonical) :=
          (intercalate_flatMap [32] fun item _ => item.canonical_ne_nil).symm

/-- A script whose items all keep step comes back exactly when all of them survive. -/
theorem roundTrips_iff_survive (htable : ValidTable definitions) {source : SourceText}
    {items : List ScriptItem} (hscript : ValidScript sha256 definitions items)
    (hreads : Reads source.1 items) (hstep : ∀ item ∈ items, item.InStep) :
    RoundTrips sha256 definitions source.1 items ↔ ∀ item ∈ items, item.Survives sha256 :=
  (roundTrips_iff_shown htable hscript hreads hstep).trans
    (shown_eq_iff fun item hitem => hreads.placed hscript hitem (hstep item hitem))

/-- A script that ends in a dropped keyword does not come back, unless it compiles to nothing. -/
theorem roundTrips_dropped_iff (htable : ValidTable definitions) {source : SourceText}
    {items : List ScriptItem} {item : ScriptItem}
    (hscript : ValidScript sha256 definitions (items ++ [item]))
    (hreads : Reads source.1 (items ++ [item])) (hstep : ∀ item ∈ items, item.InStep)
    (hdropped : item.Dropped) :
    RoundTrips sha256 definitions source.1 (items ++ [item]) ↔ items = [] := by
  constructor
  · intro hround
    by_contra hitems
    have hplaced : ∀ item ∈ items, Placed sha256 definitions item :=
      fun item hitem => hreads.placed hscript (List.mem_append_left _ hitem) (hstep item hitem)
    have hcanonical : item.canonical.flatMap (words isSpace) = item.canonical :=
      flatMap_words_of_isWord isSpace <|
        (hscript.valid item (by simp)).isWord_canonical fun token htoken =>
          hreads.isWord (by simp) htoken
    have hsame := congrArg (words isSpace)
      (shown_of_roundTrips_dropped htable hscript hreads hstep hdropped hitems hround)
    rw [words_joinWords, words_intercalate isSpace (by decide), List.flatMap_append,
      List.flatMap_append, words_canonical hplaced, List.flatMap_singleton, hcanonical] at hsame
    exact item.canonical_ne_nil (items_survive_of_words hplaced hsame).2
  · rintro rfl bytecode hbytecode
    have hcompile := compile_dropped htable hscript hreads hstep hdropped
    rw [compileWithHeader, hcompile] at hbytecode
    cases hbytecode

/-- A dropped keyword is not complete. -/
theorem ScriptItem.Dropped.not_complete {item : ScriptItem} (hdropped : item.Dropped) :
    ¬ item.Complete := by
  cases item with
  | keyword definition spelling params =>
      obtain ⟨hext, hcount, rfl⟩ := hdropped
      intro hcomplete
      rw [ScriptItem.Complete, Definition.requiredParams, if_pos hext, List.length_nil] at hcomplete
      exact absurd (UInt32.lt_iff_toNat_lt.mp hcount) (by simp [← hcomplete])
  | unsignedNr digits => exact hdropped.elim
  | signedNr digits => exact hdropped.elim
  | word token => exact hdropped.elim

/-- A script comes back from its bytecode if all its items survive, and if it is a single dropped
keyword, which compiles to nothing. A script whose items keep step, but for a dropped keyword at the
end, comes back in no other case. The checksums and the keyword hash may come from any function. -/
theorem script_round_trips_iff (sha256 : Bytes → Bytes32) {definitions : List Definition}
    (htable : ValidTable definitions) (source : SourceText) {items : List ScriptItem}
    (hscript : ValidScript sha256 definitions items) (hreads : Reads source.1 items) :
    ((∀ item ∈ items, item.Survives sha256) ∨ (∃ item, items = [item] ∧ item.Dropped) →
        RoundTrips sha256 definitions source.1 items) ∧
      ((∀ item ∈ items, item.InStep ∨ item.Dropped) →
        RoundTrips sha256 definitions source.1 items →
          (∀ item ∈ items, item.Survives sha256) ∨ (∃ item, items = [item] ∧ item.Dropped)) := by
  constructor
  · rintro (hsurvive | ⟨item, rfl, hdropped⟩)
    · have hstep : ∀ item ∈ items, item.InStep := fun item hitem => (hsurvive item hitem).inStep
      exact (roundTrips_iff_survive htable hscript hreads hstep).mpr hsurvive
    · change RoundTrips sha256 definitions source.1 ([] ++ [item])
      exact (roundTrips_dropped_iff htable hscript hreads (by simp) hdropped).mpr rfl
  · intro hstep hround
    obtain rfl | ⟨before, last, rfl⟩ := List.eq_nil_or_concat' items
    · exact .inl (by simp)
    have hbefore : ∀ item ∈ before, item.InStep := by
      intro item hitem
      have hcomplete := hscript.complete item (by simpa using hitem)
      exact (hstep item (List.mem_append_left _ hitem)).resolve_right
        fun hdropped => hdropped.not_complete hcomplete
    cases hstep last (by simp) with
    | inl hlast =>
        have hall : ∀ item ∈ before ++ [last], item.InStep := by
          intro item hitem
          obtain hitem | hitem := List.mem_append.mp hitem
          · exact hbefore item hitem
          · rwa [List.mem_singleton.mp hitem]
        exact .inl ((roundTrips_iff_survive htable hscript hreads hall).mp hround)
    | inr hdropped =>
        have hnil := (roundTrips_dropped_iff htable hscript hreads hbefore hdropped).mp hround
        exact .inr ⟨last, by rw [hnil, List.nil_append], hdropped⟩

end Scripts

end Gridnet

namespace Gridnet

def sampleTable : List Definition :=
  [{ name := ascii "data58", id := 145, extType := true, inlineParamCount := 1,
      hasBase58BinaryInLineParams := true },
    { name := ascii "xvalue", id := 128 },
    { name := ascii "regPool", id := 301, extType := true, inlineParamCount := 1,
      hasBase64BinaryInLineParams := true }]

/-- A number, a keyword in another spelling with Base58 text, a word, a keyword without parameters,
and a keyword with a flag and Base64 text. -/
def sampleItems : List ScriptItem :=
  [.unsignedNr (ascii "700"),
    .keyword sampleTable[0] (ascii "Data58") [{ text := ascii "d4PynMun" }],
    .word (ascii "note"),
    .keyword sampleTable[1] (ascii "xvalue") [],
    .keyword sampleTable[2] (ascii "regPool") [{ flag := some (ascii "-t"), text := ascii "SGmD/IVJ" }]]

def sampleSource : SourceText :=
  ⟨ascii "700 Data58 d4PynMun note  xvalue regPool -t SGmD/IVJ", by decide⟩

theorem sampleTable_valid : ValidTable sampleTable where
  names := by decide
  ids := by decide
  range := by decide

theorem sampleItems_valid : ValidScript sha256 sampleTable sampleItems where
  valid := by
    have h58 : paramBytes sha256 sampleTable[0] (ascii "d4PynMun") ≠ none := by decide +kernel
    have h64 : paramBytes sha256 sampleTable[2] (ascii "SGmD/IVJ") ≠ none := by decide +kernel
    have hflag : flagR (ascii "-t") = true := by decide
    simp only [sampleItems, List.forall_mem_cons, ScriptItem.Valid, InlineParam.Valid]
    refine ⟨by decide, ⟨by decide, by decide, ?_⟩, by decide, ⟨by decide, by decide, by simp⟩,
      ⟨by decide, by decide, ?_⟩, by simp⟩
    · simpa [sampleTable, Definition.isBinary] using h58
    · simpa [sampleTable, Definition.isBinary, hflag] using h64
  complete := by
    simp [sampleItems, ScriptItem.Complete, Definition.requiredParams, sampleTable]
  last := by
    simp [sampleItems, ScriptItem.Complete, Definition.requiredParams, sampleTable]

theorem sampleItems_survive : ∀ item ∈ sampleItems, item.Survives sha256 := by
  have h58 : paramBytes sha256 sampleTable[0] (ascii "d4PynMun") = some (ascii "Hi") := by
    decide +kernel
  have h64 : paramBytes sha256 sampleTable[2] (ascii "SGmD/IVJ") = some (ascii "Hi") := by
    decide +kernel
  have htext58 : binaryText sha256 sampleTable[0] (ascii "Hi") = ascii "d4PynMun" := by
    decide +kernel
  have htext64 : binaryText sha256 sampleTable[2] (ascii "Hi") = ascii "SGmD/IVJ" := by
    decide +kernel
  have hdata58 : InlineParam.Survives sha256 sampleTable[0] { text := ascii "d4PynMun" } := by
    refine fun _ => ⟨by decide, by simp, fun bytes hbytes => ?_⟩
    obtain rfl := Option.some.inj (h58.symm.trans hbytes)
    exact ⟨htext58, fun _ => by decide⟩
  have hregPool : InlineParam.Survives sha256 sampleTable[2]
      { flag := some (ascii "-t"), text := ascii "SGmD/IVJ" } := by
    refine fun _ => ⟨by decide, by decide, fun bytes hbytes => ?_⟩
    obtain rfl := Option.some.inj (h64.symm.trans hbytes)
    exact ⟨htext64, by simp⟩
  simp only [sampleItems, List.forall_mem_cons, ScriptItem.Survives]
  exact ⟨by decide, fun _ => ⟨by decide, _, rfl, hdata58⟩, trivial,
    fun hext => absurd hext (by decide), fun _ => ⟨by decide, _, rfl, hregPool⟩, by simp⟩

/-- The sample script comes back. -/
theorem sample_round_trips : RoundTrips sha256 sampleTable sampleSource.1 sampleItems :=
  (script_round_trips_iff sha256 sampleTable_valid sampleSource sampleItems_valid
    (by decide +kernel : scriptWords sampleSource.1 = sampleItems.flatMap ScriptItem.words)).1
    (.inl sampleItems_survive)

/-- A number with a minus sign comes back without it, whatever the hash function. -/
theorem signed_number_lost :
    ¬ ∃ sha256 : Bytes → Bytes32, ∀ (definitions : List Definition) (source : SourceText)
      (items : List ScriptItem), ValidTable definitions → ValidScript sha256 definitions items →
        Reads source.1 items → RoundTrips sha256 definitions source.1 items := by
  rintro ⟨sha256, hclaim⟩
  have htable : ValidTable [] := ⟨by decide, by decide, by simp⟩
  have hscript : ValidScript sha256 [] [.signedNr (ascii "5")] :=
    ⟨by simpa using ⟨rfl, by decide, by decide⟩, by simp, by simp [ScriptItem.Complete]⟩
  let source : SourceText := ⟨ascii "-5", by decide⟩
  have hreads : Reads source.1 [.signedNr (ascii "5")] :=
    (by decide +kernel : scriptWords (ascii "-5") = [ascii "-5"])
  have hround := hclaim [] source [.signedNr (ascii "5")] htable hscript hreads
  have hsurvive := (roundTrips_iff_survive htable hscript hreads
    (by simp [ScriptItem.InStep])).mp hround
  exact hsurvive _ List.mem_cons_self

end Gridnet
