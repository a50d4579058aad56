import Gridnet.BytecodeModel
import Mathlib.Data.BitVec

/-! The two versions of the parser that reads what a script sends: `parseSendCommand_Legacy` stops at
the first valid command, `parseSendCommand_Cumulative` adds up all of them. Each is translated on its
own; both are compared with the list of the valid commands of a script. -/

namespace Gridnet

/-- The functions the parsers call. `none` where one throws a `std::exception`. -/
structure SendTools (Double : Type) where
  stoul : Bytes → Option ℕ
  stod : Bytes → Option Double
  GNCToAtto : Double → Option BigInt
  isAlphaNumericStr : Bytes → Option Bool
  isValidDecimalNumber : Bytes → Option Bool
  toBigInt : Bytes → Option BigInt

structure CSendCommandParsingResult where
  mSuccess : Bool := false
  mAmount : BigInt := 0
  mRecipient : Bytes := []
  deriving DecidableEq, Repr

/-! ### Tokens -/

/-- The variables of the tokenizer; `quoteChar` is set within quotes. -/
structure Tokenizer where
  tokens : List Bytes := []
  token : Bytes := []
  quoteChar : Option UInt8 := none

def Tokenizer.endToken (t : Tokenizer) : Tokenizer :=
  { t with tokens := t.tokens ++ [t.token], token := [] }

def Tokenizer.read (t : Tokenizer) (c : UInt8) : Tokenizer :=
  match t.quoteChar with
  | some quoteChar =>
      if c = quoteChar then { t.endToken with quoteChar := none }
      else { t with token := t.token ++ [c] }
  | none =>
      if isSpace c then if t.token ≠ [] then t.endToken else t
      else if c = 39 ∨ c = 34 then { t with quoteChar := some c }
      else { t with token := t.token ++ [c] }

/-- The tokens of a source; within quotes blanks do not separate them. -/
def tokenize (sourceCode : Bytes) : List Bytes :=
  let t := sourceCode.foldl Tokenizer.read {}
  if t.token ≠ [] then t.tokens ++ [t.token] else t.tokens

/-- A token that is pushed onto the simulated stack. -/
def isNumberToken : Bytes → Bool
  | [] => false
  | c :: rest => isDigit c || (c = 45 && (rest.head?.any isDigit))

structure SendCommandFlags where
  isGNC : Bool := false
  notax : Bool := false

/-- The loop over the flags of `send`, the tokens that start with a minus sign; with how many there
are. -/
def readFlags : SendCommandFlags → List Bytes → SendCommandFlags × ℕ
  | flags, [] => (flags, 0)
  | flags, flag :: rest =>
      if flag.head? = some 45 then
        let (flags, count) := readFlags
          (if flag = ascii "-gnc" ∨ flag = ascii "-GNC" then { flags with isGNC := true }
            else if flag = ascii "-notax" then { flags with notax := true }
            else flags) rest
        (flags, count + 1)
      else (flags, 0)

section Parsers

variable {Double : Type} (tools : SendTools Double)

/-- The amount of a `sendEx`; bit 1 of the flags is `isInGNC`. `none` where the command is skipped. -/
def sendExAmount (sendFlagsStr amountStr : Bytes) : Option BigInt :=
  match tools.stoul sendFlagsStr with
  | none => none
  | some sendFlagsInt =>
      if sendFlagsInt.testBit 1 then
        match tools.isAlphaNumericStr amountStr with
        | some true => (tools.stod amountStr).bind tools.GNCToAtto
        | _ => none
      else
        match tools.isValidDecimalNumber amountStr with
        | some true => tools.toBigInt amountStr
        | _ => none

/-- The amount of a `send`; `none` where the command is skipped. -/
def sendAmount (isGNC : Bool) (amountStr : Bytes) : Option BigInt :=
  if isGNC then (tools.stod amountStr).bind tools.GNCToAtto
  else if 46 ∈ amountStr then none
  else
    match tools.isValidDecimalNumber amountStr with
    | some true => tools.toBigInt amountStr
    | _ => none

/-- The loop of `parseSendCommand_Legacy`. The top of the stack comes first; `ahead` is how far the
index has already moved past the tokens at hand. -/
def legacyLoop : List Bytes → ℕ → List Bytes → CSendCommandParsingResult
  | _, _, [] => {}
  | stack, ahead + 1, _ :: rest => legacyLoop stack ahead rest
  | stack, 0, token :: rest =>
      if token = ascii "data" then
        match rest.head? with
        | none => legacyLoop stack 0 rest
        | some argument => legacyLoop (argument :: stack) 1 rest
      else if token = ascii "sendEx" then
        match stack with
        | amountStr :: recipient :: sendFlagsStr :: below =>
            match sendExAmount tools sendFlagsStr amountStr with
            | none => legacyLoop below 0 rest
            | some amount => { mSuccess := true, mAmount := amount, mRecipient := recipient }
        | stack => legacyLoop stack 0 rest
      else if token = ascii "send" then
        match rest[0]?, rest[1]? with
        | some recipient, some amountStr =>
            let (flags, count) := readFlags {} (rest.drop 2)
            match sendAmount tools flags.isGNC amountStr with
            | none => legacyLoop stack (2 + count) rest
            | some amount => { mSuccess := true, mAmount := amount, mRecipient := recipient }
        | _, _ => legacyLoop stack 0 rest
      else if token = ascii "cd" then
        legacyLoop stack (if rest = [] then 0 else 1) rest
      else if isNumberToken token then legacyLoop (token :: stack) 0 rest
      else legacyLoop stack 0 rest

def parseSendCommand_Legacy (sourceCode : Bytes) : CSendCommandParsingResult :=
  legacyLoop tools [] 0 (tokenize sourceCode)

/-- The variables that `parseSendCommand_Cumulative` adds to those of the first version. -/
structure Accumulated where
  foundSendCommand : Bool := false
  cumulativeAmount : BigInt := 0
  firstRecipient : Bytes := []

def Accumulated.add (acc : Accumulated) (recipient : Bytes) (amount : BigInt) : Accumulated where
  foundSendCommand := true
  cumulativeAmount := acc.cumulativeAmount + amount
  firstRecipient := if acc.foundSendCommand then acc.firstRecipient else recipient

/-- The loop of `parseSendCommand_Cumulative`. -/
def cumulativeLoop : Accumulated → List Bytes → ℕ → List Bytes → Accumulated
  | acc, _, _, [] => acc
  | acc, stack, ahead + 1, _ :: rest => cumulativeLoop acc stack ahead rest
  | acc, stack, 0, token :: rest =>
      if token = ascii "data" then
        match rest.head? with
        | none => cumulativeLoop acc stack 0 rest
        | some argument => cumulativeLoop acc (argument :: stack) 1 rest
      else if token = ascii "sendEx" then
        match stack with
        | amountStr :: recipient :: sendFlagsStr :: below =>
            match sendExAmount tools sendFlagsStr amountStr with
            | none => cumulativeLoop acc below 0 rest
            | some amount => cumulativeLoop (acc.add recipient amount) below 0 rest
        | stack => cumulativeLoop acc stack 0 rest
      else if token = ascii "send" then
        match rest[0]?, rest[1]? with
        | some recipient, some amountStr =>
            let (flags, count) := readFlags {} (rest.drop 2)
            match sendAmount tools flags.isGNC amountStr with
            | none => cumulativeLoop acc stack (2 + count) rest
            | some amount => cumulativeLoop (acc.add recipient amount) stack (2 + count) rest
        | _, _ => cumulativeLoop acc stack 0 rest
      else if token = ascii "cd" then
        cumulativeLoop acc stack (if rest = [] then 0 else 1) rest
      else if isNumberToken token then cumulativeLoop acc (token :: stack) 0 rest
      else cumulativeLoop acc stack 0 rest

def parseSendCommand_Cumulative (sourceCode : Bytes) : CSendCommandParsingResult :=
  let acc := cumulativeLoop tools {} [] 0 (tokenize sourceCode)
  if acc.foundSendCommand then
    { mSuccess := true, mAmount := acc.cumulativeAmount, mRecipient := acc.firstRecipient }
  else {}

/-! ### The commands of a script -/

/-- A `send` or `sendEx` that is valid where it stands. -/
structure SendCommand where
  recipient : Bytes
  amount : BigInt

/-- What one token does, given the stack before it and the tokens after it: the command it is, if it is
a valid one, the stack it leaves, and how many of the tokens after it belong to it. -/
structure TokenEffect where
  sent : Option SendCommand := none
  stack : List Bytes
  ahead : ℕ := 0

def tokenEffect (stack : List Bytes) (token : Bytes) (rest : List Bytes) : TokenEffect :=
  if token = ascii "data" then
    match rest.head? with
    | none => { stack }
    | some argument => { stack := argument :: stack, ahead := 1 }
  else if token = ascii "sendEx" then
    match stack with
    | amountStr :: recipient :: sendFlagsStr :: below =>
        { sent := (sendExAmount tools sendFlagsStr amountStr).map (SendCommand.mk recipient)
          stack := below }
    | stack => { stack }
  else if token = ascii "send" then
    match rest[0]?, rest[1]? with
    | some recipient, some amountStr =>
        let (flags, count) := readFlags {} (rest.drop 2)
        { sent := (sendAmount tools flags.isGNC amountStr).map (SendCommand.mk recipient)
          stack, ahead := 2 + count }
    | _, _ => { stack }
  else if token = ascii "cd" then { stack, ahead := if rest = [] then 0 else 1 }
  else if isNumberToken token then { stack := token :: stack }
  else { stack }

/-- The valid commands of a token stream in their order, each with the stack as left by the commands
before it. -/
def validSends : List Bytes → ℕ → List Bytes → List SendCommand
  | _, _, [] => []
  | stack, ahead + 1, _ :: rest => validSends stack ahead rest
  | stack, 0, token :: rest =>
      let e := tokenEffect tools stack token rest
      e.sent.toList ++ validSends e.stack e.ahead rest

/-- The valid commands of a script. -/
def sendCommands (sourceCode : Bytes) : List SendCommand :=
  validSends tools [] 0 (tokenize sourceCode)

/-! ### One turn of each loop -/

theorem legacyLoop_turn (stack : List Bytes) (token : Bytes) (rest : List Bytes) :
    legacyLoop tools stack 0 (token :: rest) =
      match (tokenEffect tools stack token rest).sent with
      | some command =>
          { mSuccess := true, mAmount := command.amount, mRecipient := command.recipient }
      | none => legacyLoop tools (tokenEffect tools stack token rest).stack
          (tokenEffect tools stack token rest).ahead rest := by
  rw [legacyLoop.eq_def, tokenEffect.eq_def]
  dsimp only
  split_ifs with hdata hsendEx hsend hcd hend hnumber
  · cases rest.head? <;> rfl
  · rcases stack with _ | ⟨amountStr, _ | ⟨recipient, _ | ⟨sendFlagsStr, below⟩⟩⟩
    · rfl
    · rfl
    · rfl
    · dsimp only
      cases sendExAmount tools sendFlagsStr amountStr <;> rfl
  · rcases rest[0]? with _ | recipient
    · rfl
    · rcases rest[1]? with _ | amountStr
      · rfl
      · dsimp only
        cases sendAmount tools (readFlags {} (rest.drop 2)).1.isGNC amountStr <;> rfl
  · rfl
  · rfl
  · rfl
  · rfl

theorem cumulativeLoop_turn (acc : Accumulated) (stack : List Bytes) (token : Bytes)
    (rest : List Bytes) :
    cumulativeLoop tools acc stack 0 (token :: rest) =
      cumulativeLoop tools
        ((tokenEffect tools stack token rest).sent.elim acc fun command =>
          acc.add command.recipient command.amount)
        (tokenEffect tools stack token rest).stack
        (tokenEffect tools stack token rest).ahead rest := by
  rw [cumulativeLoop.eq_def, tokenEffect.eq_def]
  dsimp only
  split_ifs with hdata hsendEx hsend hcd hend hnumber
  · cases rest.head? <;> rfl
  · rcases stack with _ | ⟨amountStr, _ | ⟨recipient, _ | ⟨sendFlagsStr, below⟩⟩⟩
    · rfl
    · rfl
    · rfl
    · dsimp only
      cases sendExAmount tools sendFlagsStr amountStr <;> rfl
  · rcases rest[0]? with _ | recipient
    · rfl
    · rcases rest[1]? with _ | amountStr
      · rfl
      · dsimp only
        cases sendAmount tools (readFlags {} (rest.drop 2)).1.isGNC amountStr <;> rfl
  · rfl
  · rfl
  · rfl
  · rfl

/-! ### Whole scripts -/

/-- The first version answers the first valid command. -/
theorem legacyLoop_eq (tokens stack : List Bytes) (ahead : ℕ) :
    legacyLoop tools stack ahead tokens =
      match (validSends tools stack ahead tokens).head? with
      | some command =>
          { mSuccess := true, mAmount := command.amount, mRecipient := command.recipient }
      | none => {} := by
  induction tokens generalizing stack ahead with
  | nil => cases ahead <;> rfl
  | cons token rest ih =>
      cases ahead with
      | succ ahead => exact ih stack ahead
      | zero =>
          rw [legacyLoop_turn, validSends]
          cases (tokenEffect tools stack token rest).sent with
          | some command => rfl
          | none => exact ih _ _

/-- The second version adds up the valid commands, and keeps the recipient of the first. -/
theorem cumulativeLoop_eq (tokens : List Bytes) (acc : Accumulated) (stack : List Bytes) (ahead : ℕ) :
    cumulativeLoop tools acc stack ahead tokens =
      (validSends tools stack ahead tokens).foldl
        (fun acc command => acc.add command.recipient command.amount) acc := by
  induction tokens generalizing acc stack ahead with
  | nil => cases ahead <;> rfl
  | cons token rest ih =>
      cases ahead with
      | succ ahead => exact ih acc stack ahead
      | zero =>
          rw [cumulativeLoop_turn, validSends, ih, List.foldl_append]
          cases (tokenEffect tools stack token rest).sent <;> rfl

end Parsers

theorem foldl_add (commands : List SendCommand) (acc : Accumulated)
    (hfound : acc.foundSendCommand = true) :
    commands.foldl (fun acc command => acc.add command.recipient command.amount) acc =
      { foundSendCommand := true
        cumulativeAmount := acc.cumulativeAmount + (commands.map SendCommand.amount).sum
        firstRecipient := acc.firstRecipient } := by
  induction commands generalizing acc with
  | nil => simp [← hfound]
  | cons command commands ih =>
      rw [List.foldl_cons, ih _ rfl, List.map_cons, List.sum_cons, ← add_assoc]
      simp [Accumulated.add, hfound]

/-- The two versions differ only by summation: they succeed on the same scripts and then name the same
recipient, that of the first valid command, and the second answers the amount of the first version
plus the amounts of the valid commands that follow. -/
theorem parseSendCommand_versions {Double : Type} (tools : SendTools Double) (sourceCode : Bytes) :
    let legacy := parseSendCommand_Legacy tools sourceCode
    let cumulative := parseSendCommand_Cumulative tools sourceCode
    let commands := sendCommands tools sourceCode
    cumulative.mSuccess = legacy.mSuccess ∧
      (legacy.mSuccess = true →
        commands.head? = some ⟨legacy.mRecipient, legacy.mAmount⟩ ∧
          cumulative.mRecipient = legacy.mRecipient ∧
          cumulative.mAmount = legacy.mAmount + (commands.tail.map SendCommand.amount).sum) ∧
      (commands.length = 1 → cumulative = legacy) := by
  intro legacy cumulative commands
  have hlegacy : legacy = match commands.head? with
      | some command =>
          { mSuccess := true, mAmount := command.amount, mRecipient := command.recipient }
      | none => {} :=
    legacyLoop_eq tools (tokenize sourceCode) [] 0
  have hloop : cumulativeLoop tools {} [] 0 (tokenize sourceCode) =
      commands.foldl (fun acc command => acc.add command.recipient command.amount) {} :=
    cumulativeLoop_eq tools (tokenize sourceCode) {} [] 0
  have hcumulative : cumulative = match commands with
      | command :: rest =>
          { mSuccess := true
            mAmount := command.amount + (rest.map SendCommand.amount).sum
            mRecipient := command.recipient }
      | [] => {} := by
    show parseSendCommand_Cumulative tools sourceCode = _
    rw [parseSendCommand_Cumulative, hloop]
    cases commands with
    | nil => rfl
    | cons command rest =>
        rw [List.foldl_cons, foldl_add rest _ rfl]
        simp [Accumulated.add]
  cases hcommands : commands with
  | nil =>
      rw [hcommands] at hlegacy hcumulative
      rw [hlegacy, hcumulative]
      exact ⟨rfl, fun hsuccess => absurd hsuccess Bool.false_ne_true, fun _ => rfl⟩
  | cons first rest =>
      rw [hcommands] at hlegacy hcumulative
      rw [hlegacy, hcumulative]
      refine ⟨rfl, fun _ => ⟨rfl, rfl, rfl⟩, fun hone => ?_⟩
      have hrest : rest = [] := by simpa using hone
      simp [hrest]

/-- Decimal digits are numbers, and a coin has ten attos. -/
def decimalTools : SendTools ℕ where
  stoul := stoull
  stod := stoull
  GNCToAtto coins := some (BitVec.ofNat 256 (10 * coins))
  isAlphaNumericStr token := some (token.all isAlnum)
  isValidDecimalNumber token := some (unsignedNrR token)
  toBigInt token := some (BitVec.ofNat 256 (digitsValue token))

example : parseSendCommand_Cumulative decimalTools
      (ascii "send bob 5 2 data 'eve x' 3 sendEx send ann 1.5 send eve 4 -notax -gnc") =
    { mSuccess := true, mAmount := 75, mRecipient := ascii "bob" } := by
  decide +kernel

end Gridnet
