import NasuaOS.SuaScript.Tokens

/-!
# SuaScript compiler

`src/utilities/applications/suaedit/src/suascript.cpp:57–153,526–1171`. One pass over the tokens
emits the code and patches the jumps. An error is kept when it is the first one, and the pass goes on
behind it. The recursion over brackets and blocks and the loops take fuel.
-/

namespace NasuaOS.SuaScript

open Base Libc

/-- `max_instructions`, and `max_break_jumps`. -/
def maxInstructions : Nat := 512

/-- `max_variables`. -/
def maxVariables : Nat := 32

/-- `max_loop_depth`. -/
def maxLoopDepth : Nat := 16

/-- The size of the name of a variable, with its terminator. -/
def nameCapacity : Nat := 24

/-- `ValueType`. -/
inductive ValueType
  | invalid
  | integer
  | boolean
  | string
  deriving DecidableEq, Repr

/-- `Op`. -/
inductive Op
  | pushInteger
  | pushBoolean
  | pushString
  | load
  | store
  | add
  | subtract
  | multiply
  | divide
  | negate
  | equal
  | notEqual
  | less
  | lessEqual
  | greater
  | greaterEqual
  | and
  | or
  | not
  | modulo
  | jump
  | jumpIfFalse
  | print
  deriving DecidableEq, Repr

/-- `Instruction`. -/
structure Instruction where
  op : Op
  operand : Int
  deriving DecidableEq, Repr

/-- `Variable`. -/
structure Variable where
  name : Bytes
  type : ValueType
  deriving DecidableEq, Repr

/-- `LoopContext`. -/
structure LoopContext where
  continueTarget : Nat
  breakStart : Nat
  deriving DecidableEq, Repr

/-- The part of `Engine` that compiling changes; the innermost loop is the first one. -/
structure Engine where
  position : Nat
  code : List Instruction
  vars : List Variable
  loops : List LoopContext
  breakJumps : List Nat
  error : Option ScriptError
  deriving DecidableEq, Repr

/-- The engine before `compile`. -/
def Engine.start : Engine := ⟨0, [], [], [], [], none⟩

/-- Compiling code. -/
abbrev CompileM := Program Engine

/-- The binary operators. -/
inductive Binary
  | add
  | subtract
  | multiply
  | divide
  | modulo
  | less
  | lessEqual
  | greater
  | greaterEqual
  | equal
  | notEqual
  | and
  | or
  deriving DecidableEq, Repr

/-- The instruction of an operator. -/
def Binary.op : Binary → Op
  | .add => .add
  | .subtract => .subtract
  | .multiply => .multiply
  | .divide => .divide
  | .modulo => .modulo
  | .less => .less
  | .lessEqual => .lessEqual
  | .greater => .greater
  | .greaterEqual => .greaterEqual
  | .equal => .equal
  | .notEqual => .notEqual
  | .and => .and
  | .or => .or

/-- Operators of one precedence: their tokens, the types they take, the message for others, and the
type of the result. -/
structure Level where
  operator : TokenKind → Option Binary
  accepts : ValueType → ValueType → Bool
  message : String
  result : ValueType

/-- `*`, `/` and `%`. -/
def factorLevel : Level where
  operator
    | .star => some .multiply
    | .slash => some .divide
    | .percent => some .modulo
    | _ => none
  accepts left right := left == .integer && right == .integer
  message := "arithmetic requires int"
  result := .integer

/-- `+` and `-`. -/
def termLevel : Level where
  operator
    | .plus => some .add
    | .minus => some .subtract
    | _ => none
  accepts left right := left == .integer && right == .integer
  message := "arithmetic requires int"
  result := .integer

/-- The orders. -/
def comparisonLevel : Level where
  operator
    | .less => some .less
    | .lessEqual => some .lessEqual
    | .greater => some .greater
    | .greaterEqual => some .greaterEqual
    | _ => none
  accepts left right := left == .integer && right == .integer
  message := "comparison requires int"
  result := .boolean

/-- `==` and `!=`. -/
def equalityLevel : Level where
  operator
    | .equal => some .equal
    | .notEqual => some .notEqual
    | _ => none
  accepts left right := left == right
  message := "equality operands must have the same type"
  result := .boolean

/-- `and`. -/
def andLevel : Level where
  operator
    | .and => some .and
    | _ => none
  accepts left right := left == .boolean && right == .boolean
  message := "and requires bool"
  result := .boolean

/-- `or`. -/
def orLevel : Level where
  operator
    | .or => some .or
    | _ => none
  accepts left right := left == .boolean && right == .boolean
  message := "or requires bool"
  result := .boolean

/-- The operator of a compound assignment. -/
def compoundOperator : TokenKind → Option Binary
  | .plusAssign => some .add
  | .minusAssign => some .subtract
  | .starAssign => some .multiply
  | .slashAssign => some .divide
  | .percentAssign => some .modulo
  | _ => none

/-- The type that a declaration starts with. -/
def declaredType : TokenKind → ValueType
  | .boolType => .boolean
  | .stringType => .string
  | _ => .integer

/-- The slot of a name. -/
def slotOf (vars : List Variable) (name : Bytes) : Option Nat :=
  vars.findIdx? fun v => v.name == name

/-- The tokens as an array; behind them there is nothing but the end. -/
def tokenAt (tokens : List Token) (position : Nat) : Token :=
  tokens.getD position ⟨.endOfSource, 0, 0, 0, 0⟩

section

variable (source : Bytes) (tokens : List Token)

/-- `current`. -/
def current : CompileM Token := do return tokenAt tokens (← get).position

/-- `engine.tokens[engine.position - 1]`. -/
def previous : CompileM Token := do return tokenAt tokens ((← get).position - 1)

/-- `++engine.position`. -/
def advance : CompileM Unit := modify fun e => { e with position := e.position + 1 }

/-- `match`. -/
def matchKind (kind : TokenKind) : CompileM Bool := do
  if (← current tokens).kind = kind then
    advance
    return true
  else
    return false

/-- `set_error`. -/
def setError (message : String) (line : Nat) : CompileM Unit :=
  modify fun e => { e with error := e.error.or (some ⟨message, line⟩) }

/-- `if (wrong) set_error(...);`. -/
def errorIf (wrong : Prop) [Decidable wrong] (message : String) (line : Nat) : CompileM Unit :=
  if wrong then setError message line else return

/-- `set_error` at the current token when something is not as it should be. -/
def check (ok : Bool) (message : String) : CompileM Unit := do
  if ok then
    return
  else
    setError message (← current tokens).line

/-- `expect`. -/
def expect (kind : TokenKind) (message : String) : CompileM Bool := do
  if ← matchKind tokens kind then
    return true
  else
    setError message (← current tokens).line
    return false

/-- `emit`; `none` is the index −1. -/
def emit (op : Op) (operand : Int) : CompileM (Option Nat) := do
  let e ← get
  if maxInstructions ≤ e.code.length then
    setError "program is too large" (← current tokens).line
    return none
  else
    set ({ e with code := e.code ++ [⟨op, operand⟩] } : Engine)
    return some e.code.length

/-- The code with another operand. -/
def patchCode (code : List Instruction) (instruction target : Nat) : List Instruction :=
  code.modify instruction fun i => { i with operand := target }

/-- `patch`. -/
def patch (instruction : Option Nat) (target : Nat) : CompileM Unit :=
  match instruction with
  | none => return
  | some instruction => modify fun e => { e with code := patchCode e.code instruction target }

/-- `engine.code_count`. -/
def codeCount : CompileM Nat := do return (← get).code.length

/-- `engine.error == nullptr`. -/
def noError : CompileM Bool := do return (← get).error.isNone

/-- `if (!x) return false;`, and what follows. -/
def andThen (x rest : CompileM Bool) : CompileM Bool := do
  if ← x then
    rest
  else
    return false

/-- `declare_variable`; `none` is the index −1. -/
def declareVariable (token : Token) (type : ValueType) : CompileM (Option Nat) := do
  let e ← get
  if nameCapacity ≤ token.length then
    setError "variable name is too long" token.line
    return none
  else if (slotOf e.vars (tokenText source token)).isSome then
    setError "variable is already declared" token.line
    return none
  else if maxVariables ≤ e.vars.length then
    setError "too many variables" token.line
    return none
  else
    set ({ e with vars := e.vars ++ [⟨tokenText source token, type⟩] } : Engine)
    return some e.vars.length

/-- `parse_primary`. -/
def parsePrimary (expression : CompileM ValueType) : CompileM ValueType := do
  let token ← current tokens
  let e ← get
  match token.kind with
  | .number =>
    advance
    discard (emit tokens .pushInteger token.number.toInt)
    return .integer
  | .string =>
    advance
    discard (emit tokens .pushString e.position)
    return .string
  | .trueLiteral =>
    advance
    discard (emit tokens .pushBoolean 1)
    return .boolean
  | .falseLiteral =>
    advance
    discard (emit tokens .pushBoolean 0)
    return .boolean
  | .identifier =>
    advance
    match slotOf e.vars (tokenText source token) with
    | none =>
      setError "unknown variable" token.line
      return .invalid
    | some slot =>
      discard (emit tokens .load slot)
      return (e.vars.getD slot ⟨[], .invalid⟩).type
  | .leftParen =>
    advance
    let type ← expression
    discard (expect tokens .rightParen "expected ')' after expression")
    return type
  | _ =>
    setError "expected an expression" token.line
    return .invalid

/-- `parse_unary`. -/
def parseUnary (expression : CompileM ValueType) : Nat → CompileM ValueType
  | 0 => throw .outOfFuel
  | fuel + 1 => do
    if ← matchKind tokens .minus then
      let type ← parseUnary expression fuel
      check tokens (type == .integer) "unary '-' requires int"
      discard (emit tokens .negate 0)
      return .integer
    else if ← matchKind tokens .not then
      let type ← parseUnary expression fuel
      check tokens (type == .boolean) "not requires bool"
      discard (emit tokens .not 0)
      return .boolean
    else
      parsePrimary source tokens expression

/-- The loop over the operators of one level. -/
def binaryLoop (operand : CompileM ValueType) (level : Level) : Nat → ValueType → CompileM ValueType
  | 0, _ => throw .outOfFuel
  | fuel + 1, type => do
    match level.operator (← current tokens).kind with
    | none => return type
    | some operation =>
      advance
      let right ← operand
      check tokens (level.accepts type right) level.message
      discard (emit tokens operation.op 0)
      binaryLoop operand level fuel level.result

/-- One level: an operand, and the loop. -/
def parseLevel (operand : CompileM ValueType) (level : Level) (fuel : Nat) : CompileM ValueType := do
  binaryLoop tokens operand level fuel (← operand)

/-- `parse_factor`. -/
def parseFactor (expression : CompileM ValueType) (fuel : Nat) : CompileM ValueType :=
  parseLevel tokens (parseUnary source tokens expression fuel) factorLevel fuel

/-- `parse_term`. -/
def parseTerm (expression : CompileM ValueType) (fuel : Nat) : CompileM ValueType :=
  parseLevel tokens (parseFactor source tokens expression fuel) termLevel fuel

/-- `parse_comparison`. -/
def parseComparison (expression : CompileM ValueType) (fuel : Nat) : CompileM ValueType :=
  parseLevel tokens (parseTerm source tokens expression fuel) comparisonLevel fuel

/-- `parse_equality`. -/
def parseEquality (expression : CompileM ValueType) (fuel : Nat) : CompileM ValueType :=
  parseLevel tokens (parseComparison source tokens expression fuel) equalityLevel fuel

/-- `parse_and`. -/
def parseAnd (expression : CompileM ValueType) (fuel : Nat) : CompileM ValueType :=
  parseLevel tokens (parseEquality source tokens expression fuel) andLevel fuel

/-- `parse_expression`. -/
def parseExpression : Nat → CompileM ValueType
  | 0 => throw .outOfFuel
  | fuel + 1 => parseLevel tokens (parseAnd source tokens (parseExpression fuel) fuel) orLevel fuel

/-- The end of a declaration or an assignment: a semicolon that must or may be there. -/
def endAssignment (requireSemicolon : Bool) : CompileM Bool :=
  if requireSemicolon then
    andThen (expect tokens .semicolon "expected ';' in for header") noError
  else do
    discard (matchKind tokens .semicolon)
    noError

/-- `parse_declaration`. -/
def parseDeclaration (fuel : Nat) (requireSemicolon : Bool) : CompileM Bool := do
  let typeToken ← current tokens
  let declared := declaredType typeToken.kind
  advance
  andThen (expect tokens .identifier "expected a variable name") do
    let name ← previous tokens
    match ← declareVariable source name declared with
    | none => return false
    | some slot =>
      andThen (expect tokens .assign "expected '=' after variable name") do
        let valueType ← parseExpression source tokens fuel
        errorIf (valueType ≠ declared) "assigned value does not match variable type" name.line
        discard (emit tokens .store slot)
        endAssignment tokens requireSemicolon

/-- `parse_assignment`. -/
def parseAssignment (fuel : Nat) (requireSemicolon : Bool) : CompileM Bool :=
  andThen (expect tokens .identifier "expected a variable name") do
    let name ← previous tokens
    let vars := (← get).vars
    match slotOf vars (tokenText source name) with
    | none =>
      setError "unknown variable" name.line
      return false
    | some slot =>
      let declared := (vars.getD slot ⟨[], .invalid⟩).type
      let assignment ← current tokens
      if assignment.kind = .assign then
        advance
        let valueType ← parseExpression source tokens fuel
        errorIf (valueType ≠ declared) "assigned value does not match variable type" name.line
        discard (emit tokens .store slot)
        endAssignment tokens requireSemicolon
      else
        match compoundOperator assignment.kind with
        | none =>
          setError "expected an assignment operator" assignment.line
          return false
        | some operation =>
          advance
          if declared ≠ .integer then
            setError "compound assignment requires int" name.line
            return false
          else
            discard (emit tokens .load slot)
            let valueType ← parseExpression source tokens fuel
            errorIf (valueType ≠ .integer) "compound assignment requires int" name.line
            discard (emit tokens operation.op 0)
            discard (emit tokens .store slot)
            endAssignment tokens requireSemicolon

/-- The loop over the statements of a block or of the program. -/
def statements (statement : CompileM Bool) (ends : TokenKind → Bool) : Nat → CompileM Bool
  | 0 => throw .outOfFuel
  | fuel + 1 => do
    let token ← current tokens
    let e ← get
    if ends token.kind ∨ e.error.isSome then
      return true
    else
      andThen statement do
        if (← get).position = e.position then
          setError "parser made no progress" token.line
          return false
        else
          statements statement ends fuel

/-- A block ends at its brace, or at the end of the source. -/
def endsBlock : TokenKind → Bool
  | .rightBrace => true
  | .endOfSource => true
  | _ => false

/-- The program ends at the end of the source. -/
def endsProgram : TokenKind → Bool
  | .endOfSource => true
  | _ => false

/-- `parse_block`. -/
def parseBlock (statement : CompileM Bool) (fuel : Nat) : CompileM Bool :=
  andThen (expect tokens .leftBrace "expected '\x7b' to begin block") <|
    andThen (statements tokens statement endsBlock fuel) <|
      expect tokens .rightBrace "expected '\x7d' to end block"

/-- `parse_if_tail`. -/
def parseIfTail (expression : CompileM ValueType) (block : CompileM Bool) : Nat → CompileM Bool
  | 0 => throw .outOfFuel
  | fuel + 1 =>
    andThen (expect tokens .leftParen "expected '(' after if") do
      let condition ← expression
      check tokens (condition == .boolean) "if condition must be bool"
      andThen (expect tokens .rightParen "expected ')' after condition") do
        let falseJump ← emit tokens .jumpIfFalse 0
        andThen block do
          if ← matchKind tokens .elseKeyword then
            let endJump ← emit tokens .jump 0
            patch falseJump (← codeCount)
            andThen (do
              if ← matchKind tokens .ifKeyword then
                parseIfTail expression block fuel
              else
                block) do
              patch endJump (← codeCount)
              noError
          else
            patch falseJump (← codeCount)
            noError

/-- `begin_loop`. -/
def beginLoop (continueTarget : Nat) : CompileM Bool := do
  let e ← get
  if maxLoopDepth ≤ e.loops.length then
    setError "too many nested loops" (← current tokens).line
    return false
  else
    set ({ e with loops := ⟨continueTarget, e.breakJumps.length⟩ :: e.loops } : Engine)
    return true

/-- `end_loop`. -/
def endLoop (breakTarget : Nat) : CompileM Bool := do
  let e ← get
  let breakStart := (e.loops.headD ⟨0, 0⟩).breakStart
  set ({ e with
    code := (e.breakJumps.drop breakStart).foldl (fun code i => patchCode code i breakTarget) e.code
    breakJumps := e.breakJumps.take breakStart
    loops := e.loops.tail } : Engine)
  noError

/-- `parse_while`. -/
def parseWhile (expression : CompileM ValueType) (block : CompileM Bool) : CompileM Bool := do
  advance
  let conditionStart ← codeCount
  andThen (expect tokens .leftParen "expected '(' after while") do
    let condition ← expression
    check tokens (condition == .boolean) "while condition must be bool"
    andThen (expect tokens .rightParen "expected ')' after condition") do
      let exitJump ← emit tokens .jumpIfFalse 0
      andThen (beginLoop tokens conditionStart) <|
        andThen block do
          discard (emit tokens .jump conditionStart)
          patch exitJump (← codeCount)
          endLoop (← codeCount)

/-- `parse_for`. -/
def parseFor (fuel : Nat) (block : CompileM Bool) : CompileM Bool := do
  advance
  andThen (expect tokens .leftParen "expected '(' after for") do
    let typeToken ← current tokens
    if typeToken.kind ≠ .intType ∧ typeToken.kind ≠ .boolType ∧ typeToken.kind ≠ .stringType then
      setError "for initializer must declare a typed variable" typeToken.line
      return false
    else
      andThen (parseDeclaration source tokens fuel true) do
        let conditionStart ← codeCount
        let condition ← parseExpression source tokens fuel
        check tokens (condition == .boolean) "for condition must be bool"
        andThen (expect tokens .semicolon "expected ';' before for increment") do
          let exitJump ← emit tokens .jumpIfFalse 0
          let bodyJump ← emit tokens .jump 0
          let incrementStart ← codeCount
          andThen (andThen (parseAssignment source tokens fuel false)
              (expect tokens .rightParen "expected ')' after for header")) do
            discard (emit tokens .jump conditionStart)
            patch bodyJump (← codeCount)
            andThen (beginLoop tokens incrementStart) <|
              andThen block do
                discard (emit tokens .jump incrementStart)
                patch exitJump (← codeCount)
                endLoop (← codeCount)

/-- `print`, behind the keyword. -/
def parsePrint (expression : CompileM ValueType) : CompileM Bool :=
  andThen (expect tokens .leftParen "expected '(' after print") do
    if (← expression) = .invalid then
      return false
    else
      andThen (expect tokens .rightParen "expected ')' after print value") do
        discard (emit tokens .print 0)
        discard (matchKind tokens .semicolon)
        noError

/-- `break`, behind the keyword. -/
def parseBreak : CompileM Bool := do
  let e ← get
  if e.loops = [] then
    setError "break can only be used inside a loop" (← previous tokens).line
    return false
  else if maxInstructions ≤ e.breakJumps.length then
    setError "too many break statements" (← current tokens).line
    return false
  else
    let jump ← emit tokens .jump 0
    modify fun e => { e with breakJumps := e.breakJumps ++ [jump.getD (2 ^ 16 - 1)] }
    discard (matchKind tokens .semicolon)
    noError

/-- `continue`, behind the keyword. -/
def parseContinue : CompileM Bool := do
  match (← get).loops with
  | [] =>
    setError "continue can only be used inside a loop" (← previous tokens).line
    return false
  | loop :: _ =>
    discard (emit tokens .jump loop.continueTarget)
    discard (matchKind tokens .semicolon)
    noError

/-- `parse_statement`. -/
def parseStatement : Nat → CompileM Bool
  | 0 => throw .outOfFuel
  | fuel + 1 => do
    let block := parseBlock tokens (parseStatement fuel) fuel
    let token ← current tokens
    match token.kind with
    | .intType | .boolType | .stringType => parseDeclaration source tokens fuel false
    | .print =>
      advance
      parsePrint tokens (parseExpression source tokens fuel)
    | .ifKeyword =>
      advance
      parseIfTail tokens (parseExpression source tokens fuel) block fuel
    | .breakKeyword =>
      advance
      parseBreak tokens
    | .continueKeyword =>
      advance
      parseContinue tokens
    | .whileKeyword => parseWhile tokens (parseExpression source tokens fuel) block
    | .forKeyword => parseFor source tokens fuel block
    | .identifier => parseAssignment source tokens fuel false
    | _ =>
      setError "expected a statement" token.line
      return false

/-- `compile`. -/
def compile (fuel : Nat) : CompileM Bool :=
  andThen (statements tokens (parseStatement source tokens fuel) endsProgram fuel) noError

end

end NasuaOS.SuaScript
