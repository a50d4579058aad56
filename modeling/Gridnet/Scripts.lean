import Gridnet.BytecodeModel
import Gridnet.Words
import Mathlib.Data.List.Nodup

/-! Scripts as their authors mean them: a list of items, each a keyword with its inline parameters, a
number or another word. Which items a script may hold, what words they are written with and what they
read like in canonical spelling. -/

namespace Gridnet

/-- The text of a script: no `std::string` is longer. -/
abbrev SourceText := { s : Bytes // s.length < 2 ^ 63 }

/-- An inline parameter, with a flag before it or without. -/
structure InlineParam where
  flag : Option Bytes := none
  text : Bytes
  deriving DecidableEq

inductive ScriptItem where
  | keyword (definition : Definition) (spelling : Bytes) (params : List InlineParam)
  | unsignedNr (digits : Bytes)
  | signedNr (digits : Bytes)
  | word (token : Bytes)
  deriving DecidableEq

namespace Definition

/-- The inline parameters are given as the text of bytes. -/
def isBinary (definition : Definition) : Bool :=
  definition.hasBase58BinaryInLineParams || definition.hasBase64BinaryInLineParams

/-- The inline parameters the keyword asks for. -/
def requiredParams (definition : Definition) : ℕ :=
  if definition.extType then definition.inlineParamCount.toNat else 0

end Definition

/-- A table of keywords: names distinct in upper and lower case alike, distinct IDs of at most 15
bits outside the reserved ones. -/
structure ValidTable (definitions : List Definition) : Prop where
  names : (definitions.map fun definition => definition.name.map toLower).Nodup
  ids : (definitions.map fun definition => definition.id).Nodup
  range : ∀ definition ∈ definitions, 6 ≤ definition.id.toNat ∧ definition.id.toNat ≤ 0x7FFF

namespace InlineParam

def words (param : InlineParam) : List Bytes := param.flag.toList ++ [param.text]

/-- A parameter as the keyword demands it. -/
def Valid (sha256 : Bytes → Bytes32) (definition : Definition) (param : InlineParam) : Prop :=
  if definition.isBinary then
    paramBytes sha256 definition param.text ≠ none ∧ ∀ flag ∈ param.flag, flagR flag = true
  else param.flag = none

end InlineParam

namespace ScriptItem

/-- The words an item is written with. -/
def words : ScriptItem → List Bytes
  | keyword _ spelling params => spelling :: params.flatMap InlineParam.words
  | unsignedNr digits => [digits]
  | signedNr digits => [45 :: digits]
  | word token => [token]

/-- The words of an item in canonical spelling. -/
def canonical : ScriptItem → List Bytes
  | keyword definition _ params => definition.name :: params.flatMap InlineParam.words
  | unsignedNr digits => [digits]
  | signedNr digits => [45 :: digits]
  | word token => [token]

/-- An item a script may hold: a keyword of the table with valid parameters, a number of 64 bits, or a
word that is neither. -/
def Valid (sha256 : Bytes → Bytes32) (definitions : List Definition) : ScriptItem → Prop
  | keyword definition spelling params =>
      definition ∈ definitions ∧ spelling.map toLower = definition.name.map toLower ∧
        ∀ param ∈ params, param.Valid sha256 definition
  | unsignedNr digits =>
      findDefinition definitions digits = none ∧ unsignedNrR digits = true ∧
        digitsValue digits < 2 ^ 64
  | signedNr digits =>
      findDefinition definitions (45 :: digits) = none ∧ unsignedNrR digits = true ∧
        digitsValue digits ≤ 2 ^ 63
  | word token =>
      findDefinition definitions token = none ∧ unsignedNrR token = false ∧
        signedNrR token = false

/-- An item whose inline parameters are all there. -/
def Complete : ScriptItem → Prop
  | keyword definition _ params => params.length = definition.requiredParams
  | _ => True

/-- An item whose inline parameters are omitted, from some one on. -/
def Omits : ScriptItem → Prop
  | keyword definition _ params => params.length < definition.requiredParams
  | _ => False

end ScriptItem

/-- Valid items, all complete but for the last one. -/
structure ValidScript (sha256 : Bytes → Bytes32) (definitions : List Definition)
    (items : List ScriptItem) : Prop where
  valid : ∀ item ∈ items, item.Valid sha256 definitions
  complete : ∀ item ∈ items.dropLast, item.Complete
  last : ∀ item ∈ items.getLast?, item.Complete ∨ item.Omits

theorem ValidScript.complete_or_omits {sha256 : Bytes → Bytes32} {definitions : List Definition}
    {items : List ScriptItem} (hscript : ValidScript sha256 definitions items) {item : ScriptItem}
    (hitem : item ∈ items) : item.Complete ∨ item.Omits := by
  have hne : items ≠ [] := List.ne_nil_of_mem hitem
  rw [← List.dropLast_append_getLast hne, List.mem_append, List.mem_singleton] at hitem
  obtain hinit | rfl := hitem
  · exact .inl (hscript.complete item hinit)
  · exact hscript.last _ (List.getLast?_eq_some_getLast hne)

/-- What stands after the first item of a valid script is one. -/
theorem ValidScript.tail {sha256 : Bytes → Bytes32} {definitions : List Definition}
    {item : ScriptItem} {items : List ScriptItem}
    (hscript : ValidScript sha256 definitions (item :: items)) :
    ValidScript sha256 definitions items where
  valid item hitem := hscript.valid item (List.mem_cons_of_mem _ hitem)
  complete item hitem := by
    apply hscript.complete
    cases items with
    | nil => exact absurd hitem List.not_mem_nil
    | cons next rest => exact List.mem_cons_of_mem _ hitem
  last item hitem := by
    apply hscript.last
    cases items with
    | nil => exact absurd hitem (by simp)
    | cons next rest => simpa [List.getLast?_cons_cons] using hitem

/-- What stands before the last item of a valid script is one. -/
theorem ValidScript.init {sha256 : Bytes → Bytes32} {definitions : List Definition}
    {items : List ScriptItem} {item : ScriptItem}
    (hscript : ValidScript sha256 definitions (items ++ [item])) :
    ValidScript sha256 definitions items where
  valid item hitem := hscript.valid item (List.mem_append_left _ hitem)
  complete item hitem :=
    hscript.complete item (by simpa using List.mem_of_mem_dropLast hitem)
  last item hitem :=
    .inl (hscript.complete item (by simpa using List.mem_of_getLast? hitem))

/-- The items are what the text says. -/
def Reads (source : Bytes) (items : List ScriptItem) : Prop :=
  scriptWords source = items.flatMap ScriptItem.words

/-- Compiled with a header of version 2 and decompiled, the script comes back word for word in
canonical spelling. -/
def RoundTrips (sha256 : Bytes → Bytes32) (definitions : List Definition) (source : Bytes)
    (items : List ScriptItem) : Prop :=
  ∀ bytecode, compileWithHeader sha256 definitions 2 source = some bytecode →
    decompile sha256 definitions bytecode =
      .ok (List.intercalate [32] (items.flatMap ScriptItem.canonical))

section Words

/-- The words of a script, as the words between the blanks of its text. -/
theorem scriptWords_eq (code : Bytes) : scriptWords code = words isSpace code := rfl

/-- The words of one item of a script are no longer than the text. -/
theorem Reads.sum_length_words_le {source : Bytes} {items : List ScriptItem}
    (hreads : Reads source items) {item : ScriptItem} (hitem : item ∈ items) :
    (item.words.map List.length).sum ≤ source.length := by
  refine le_trans ?_ (sum_length_words isSpace source)
  rw [← scriptWords_eq, hreads]
  obtain ⟨before, after, rfl⟩ := List.append_of_mem hitem
  simp only [List.flatMap_append, List.flatMap_cons, List.map_append, List.sum_append]
  omega

theorem Reads.isWord {source : Bytes} {items : List ScriptItem} (hreads : Reads source items)
    {item : ScriptItem} (hitem : item ∈ items) {token : Bytes} (htoken : token ∈ item.words) :
    IsWord isSpace token := by
  apply isWord_of_mem_words isSpace (l := source)
  rw [← scriptWords_eq, hreads]
  exact List.mem_flatMap.mpr ⟨item, hitem, htoken⟩

theorem isSpace_of_le {c : UInt8} (hc : 33 ≤ c.toNat) : isSpace c = false := by
  have hne : c ≠ 32 := by
    rintro rfl
    exact absurd hc (by decide)
  have hlarge : ¬ c ≤ 13 := by
    rw [UInt8.le_iff_toNat_le]
    exact fun hle => absurd (hc.trans hle) (by decide)
  simp [isSpace, hne, hlarge]

theorem isSpace_toLower (c : UInt8) : isSpace (toLower c) = isSpace c := by
  unfold toLower
  split_ifs with hupper
  · simp only [Bool.and_eq_true, decide_eq_true_eq, UInt8.le_iff_toNat_le] at hupper
    have hlower : (c + 32).toNat = c.toNat + 32 := by
      rw [UInt8.toNat_add]
      have hupper' : c.toNat ≤ 90 := hupper.2
      exact Nat.mod_eq_of_lt (Nat.lt_of_le_of_lt (Nat.add_le_add_right hupper' 32) (by decide))
    have hlarge : 33 ≤ c.toNat := le_trans (by decide) hupper.1
    rw [isSpace_of_le hlarge, isSpace_of_le (hlower ▸ Nat.le_add_right_of_le hlarge)]
  · rfl

/-- What is a word in one spelling is a word in the other. -/
theorem isWord_of_toLower_eq {token name : Bytes} (hsame : token.map toLower = name.map toLower)
    (htoken : IsWord isSpace token) : IsWord isSpace name := by
  obtain ⟨hne, hspace⟩ := htoken
  constructor
  · rintro rfl
    exact hne (by simpa using hsame)
  · intro c hc
    have hmem : toLower c ∈ token.map toLower := hsame ▸ List.mem_map_of_mem hc
    obtain ⟨d, hd, hcd⟩ := List.mem_map.mp hmem
    rw [← isSpace_toLower, ← hcd, isSpace_toLower, hspace d hd]

/-- The words of an item in canonical spelling are words. -/
theorem ScriptItem.Valid.isWord_canonical {sha256 : Bytes → Bytes32}
    {definitions : List Definition} {item : ScriptItem} (hvalid : item.Valid sha256 definitions)
    (hwords : ∀ token ∈ item.words, IsWord isSpace token) :
    ∀ token ∈ item.canonical, IsWord isSpace token := by
  cases item with
  | keyword definition spelling params =>
      obtain ⟨-, hspelling, -⟩ := hvalid
      intro token htoken
      obtain rfl | htoken := List.mem_cons.mp htoken
      · exact isWord_of_toLower_eq hspelling (hwords spelling List.mem_cons_self)
      · exact hwords token (List.mem_cons_of_mem _ htoken)
  | unsignedNr digits => exact hwords
  | signedNr digits => exact hwords
  | word token => exact hwords

theorem ScriptItem.canonical_ne_nil (item : ScriptItem) : item.canonical ≠ [] := by
  cases item <;> simp [ScriptItem.canonical]

end Words

end Gridnet
