import NasuaOS.SuaScript.Machine

/-!
# SuaScript programs

The programs that the token lists stand for, as trees: a grammar with six levels of binary operators
that group to the left, unary operators, and statements of which only the parts of a `for` header need
their semicolons. Variables are names. The code of a tree is given without patching, with the targets
of its jumps computed from the sizes.
-/

namespace NasuaOS.SuaScript

open Base

/-- Expressions; a string is known by its token. -/
inductive Expr
  | number (n : Int32)
  | string (token : Nat)
  | boolean (b : Bool)
  | var (name : Bytes)
  | negate (e : Expr)
  | not (e : Expr)
  | binary (op : Binary) (left right : Expr)
  deriving DecidableEq, Repr

/-- What gives a value to a variable. -/
inductive Assignment
  | declare (type : ValueType) (name : Bytes) (e : Expr)
  | assign (name : Bytes) (e : Expr)
  | compound (name : Bytes) (op : Binary) (e : Expr)
  deriving DecidableEq, Repr

/-- Statements, and lists of them: `skip` is the empty list and `seq` puts a statement before a
list. -/
inductive Stmt
  | skip
  | seq (first rest : Stmt)
  | assignment (a : Assignment)
  | print (e : Expr)
  | ifThen (condition : Expr) (body : Stmt)
  | ifElse (condition : Expr) (body other : Stmt)
  | whileDo (condition : Expr) (body : Stmt)
  | forDo (initial : Assignment) (condition : Expr) (increment : Assignment) (body : Stmt)
  | breakLoop
  | continueLoop
  deriving DecidableEq, Repr

/-- A parser: what is read from a position on, and the position behind it. -/
abbrev Parser := StateT Nat Option

section

variable (source : Bytes) (tokens : List Token)

namespace Parser

/-- The token at the position. -/
def peek : Parser Token := do return tokenAt tokens (← get)

/-- The next position. -/
def skip : Parser Unit := modify (· + 1)

/-- A token of a kind. -/
def token (kind : TokenKind) : Parser Token := do
  let t ← peek tokens
  if t.kind = kind then
    skip
    return t
  else
    failure

/-- A token that may be missing. -/
def optional (kind : TokenKind) : Parser Unit := do
  if (← peek tokens).kind = kind then
    skip

variable {n : Nat} {kind : TokenKind}

/-- A parser that succeeds, and what follows. -/
theorem run_bind {α β : Type} {x : Parser α} {f : α → Parser β} {m : Nat} {a : α}
    (h : x n = some (a, m)) : (x >>= f) n = f a m := by
  change (x n).bind (fun r => f r.1 r.2) = f a m
  rw [h]
  rfl

/-- Returning. -/
@[simp] theorem run_pure {α : Type} {a : α} : (pure a : Parser α) n = some (a, n) := rfl

/-- The position, and what follows. -/
@[simp] theorem run_get {α : Type} {f : Nat → Parser α} : (get >>= f) n = f n n := rfl

/-- The next position, and what follows. -/
@[simp] theorem run_skip {α : Type} {f : PUnit → Parser α} :
    (skip >>= f) n = f ⟨⟩ (n + 1) := rfl

/-- The token at the position, and what follows. -/
@[simp] theorem run_peek {α : Type} {f : Token → Parser α} :
    (peek tokens >>= f) n = f (tokenAt tokens n) n := rfl

private theorem token_eq (h : (tokenAt tokens n).kind = kind) :
    token tokens kind n = some (tokenAt tokens n, n + 1) := by
  change (if (tokenAt tokens n).kind = kind then _ else _ : Parser Token) n = _
  rw [if_pos h]
  rfl

/-- Passing a token. -/
theorem discard_token (h : (tokenAt tokens n).kind = kind) :
    discard (token tokens kind) n = some (⟨⟩, n + 1) := by
  change (token tokens kind n).bind (fun r => some (PUnit.unit, r.2)) = _
  rw [token_eq tokens h]
  rfl

/-- Passing a token, and what follows. -/
theorem run_token {α : Type} {f : PUnit → Parser α} (h : (tokenAt tokens n).kind = kind) :
    (discard (token tokens kind) >>= f) n = f ⟨⟩ (n + 1) :=
  run_bind (discard_token tokens h)

/-- Passing a token that may be missing. -/
theorem optional_eq (kind : TokenKind) (n : Nat) : optional tokens kind n =
    some (⟨⟩, if (tokenAt tokens n).kind = kind then n + 1 else n) := by
  change (if (tokenAt tokens n).kind = kind then skip else pure ⟨⟩ : Parser Unit) n = _
  split <;> rfl

/-- A name. -/
def name : Parser Bytes := do return tokenText source (← token tokens .identifier)

/-- The name that is there. -/
theorem name_eq (h : (tokenAt tokens n).kind = .identifier) :
    name source tokens n = some (tokenText source (tokenAt tokens n), n + 1) :=
  run_bind (token_eq tokens h)

/-! #### Expressions -/

/-- A literal, a variable, or an expression in brackets. -/
def primary (expression : Parser Expr) : Parser Expr := do
  let position ← get
  let t ← peek tokens
  skip
  match t.kind with
  | .number => return .number t.number
  | .string => return .string position
  | .trueLiteral => return .boolean true
  | .falseLiteral => return .boolean false
  | .identifier => return .var (tokenText source t)
  | .leftParen =>
    let e ← expression
    discard (token tokens .rightParen)
    return e
  | _ => failure

/-- Unary operators before a primary expression. -/
def unary (expression : Parser Expr) : Nat → Parser Expr
  | 0 => failure
  | fuel + 1 => do
    match (← peek tokens).kind with
    | .minus =>
      skip
      return .negate (← unary expression fuel)
    | .not =>
      skip
      return .not (← unary expression fuel)
    | _ => primary source tokens expression

/-- Operators of one level and their right operands, behind the left one. -/
def operators (operand : Parser Expr) (level : Level) : Nat → Expr → Parser Expr
  | 0, _ => failure
  | fuel + 1, left => do
    match level.operator (← peek tokens).kind with
    | none => return left
    | some operation =>
      skip
      let right ← operand
      operators operand level fuel (.binary operation left right)

/-- Operands of one level. -/
def level (operand : Parser Expr) (level : Level) (fuel : Nat) : Parser Expr := do
  operators tokens operand level fuel (← operand)

/-- Expressions, from the operators that bind most. -/
def expression : Nat → Parser Expr
  | 0 => failure
  | fuel + 1 =>
    let factor := level tokens (unary source tokens (expression fuel) fuel) factorLevel fuel
    let term := level tokens factor termLevel fuel
    let comparison := level tokens term comparisonLevel fuel
    let equality := level tokens comparison equalityLevel fuel
    let conjunction := level tokens equality andLevel fuel
    level tokens conjunction orLevel fuel

/-! #### Statements -/

/-- The semicolon behind an assignment. -/
def semicolon (required : Bool) : Parser Unit :=
  if required then discard (token tokens .semicolon) else optional tokens .semicolon

/-- A declaration. -/
def declaration (fuel : Nat) (required : Bool) : Parser Assignment := do
  let type := declaredType (← peek tokens).kind
  skip
  let x ← name source tokens
  discard (token tokens .assign)
  let e ← expression source tokens fuel
  semicolon tokens required
  return .declare type x e

/-- An assignment. -/
def assignment (fuel : Nat) (required : Bool) : Parser Assignment := do
  let x ← name source tokens
  let operator := (← peek tokens).kind
  if operator = .assign then
    skip
    let e ← expression source tokens fuel
    semicolon tokens required
    return .assign x e
  else
    match compoundOperator operator with
    | none => failure
    | some operation =>
      skip
      let e ← expression source tokens fuel
      semicolon tokens required
      return .compound x operation e

/-- A list of statements. -/
def list (statement : Parser Stmt) (ends : TokenKind → Bool) : Nat → Parser Stmt
  | 0 => failure
  | fuel + 1 => do
    if ends (← peek tokens).kind then
      return .skip
    else
      let first ← statement
      let rest ← list statement ends fuel
      return .seq first rest

/-- A list in braces. -/
def block (statement : Parser Stmt) (fuel : Nat) : Parser Stmt := do
  discard (token tokens .leftBrace)
  let body ← list tokens statement endsBlock fuel
  discard (token tokens .rightBrace)
  return body

/-- Behind `else`: another condition, or a block. -/
def alternative (conditional block : Parser Stmt) : Parser Stmt := do
  if (← peek tokens).kind = .ifKeyword then
    skip
    conditional
  else
    block

/-- A condition, a block, and what may be done otherwise. -/
def conditional (expression : Parser Expr) (block : Parser Stmt) : Nat → Parser Stmt
  | 0 => failure
  | fuel + 1 => do
    discard (token tokens .leftParen)
    let condition ← expression
    discard (token tokens .rightParen)
    let body ← block
    if (← peek tokens).kind = .elseKeyword then
      skip
      let other ← alternative tokens (conditional expression block fuel) block
      return .ifElse condition body other
    else
      return .ifThen condition body

/-- A `while` loop. -/
def whileLoop (expression : Parser Expr) (block : Parser Stmt) : Parser Stmt := do
  skip
  discard (token tokens .leftParen)
  let condition ← expression
  discard (token tokens .rightParen)
  return .whileDo condition (← block)

/-- A `for` loop. -/
def forLoop (fuel : Nat) (block : Parser Stmt) : Parser Stmt := do
  skip
  discard (token tokens .leftParen)
  let initial ← declaration source tokens fuel true
  let condition ← expression source tokens fuel
  discard (token tokens .semicolon)
  let increment ← assignment source tokens fuel false
  discard (token tokens .rightParen)
  return .forDo initial condition increment (← block)

/-- A statement. -/
def statement : Nat → Parser Stmt
  | 0 => failure
  | fuel + 1 => do
    let body := block tokens (statement fuel) fuel
    match (← peek tokens).kind with
    | .intType | .boolType | .stringType =>
      return .assignment (← declaration source tokens fuel false)
    | .print =>
      skip
      discard (token tokens .leftParen)
      let e ← expression source tokens fuel
      discard (token tokens .rightParen)
      optional tokens .semicolon
      return .print e
    | .ifKeyword =>
      skip
      conditional tokens (expression source tokens fuel) body fuel
    | .breakKeyword =>
      skip
      optional tokens .semicolon
      return .breakLoop
    | .continueKeyword =>
      skip
      optional tokens .semicolon
      return .continueLoop
    | .whileKeyword => whileLoop tokens (expression source tokens fuel) body
    | .forKeyword => forLoop source tokens fuel body
    | .identifier => return .assignment (← assignment source tokens fuel false)
    | _ => failure

end Parser

/-- The statement list of a source, up to its end. -/
def parse : Option Stmt :=
  (Parser.list tokens (Parser.statement source tokens (tokens.length + 1)) endsProgram
    (tokens.length + 1) 0).map Prod.fst

end

/-- The types that an operator takes and gives. -/
def Binary.type : Binary → ValueType → ValueType → Option ValueType
  | .add, .integer, .integer => some .integer
  | .subtract, .integer, .integer => some .integer
  | .multiply, .integer, .integer => some .integer
  | .divide, .integer, .integer => some .integer
  | .modulo, .integer, .integer => some .integer
  | .less, .integer, .integer => some .boolean
  | .lessEqual, .integer, .integer => some .boolean
  | .greater, .integer, .integer => some .boolean
  | .greaterEqual, .integer, .integer => some .boolean
  | .equal, left, right => if left = right then some .boolean else none
  | .notEqual, left, right => if left = right then some .boolean else none
  | .and, .boolean, .boolean => some .boolean
  | .or, .boolean, .boolean => some .boolean
  | _, _, _ => none

/-- The type of an expression, from those of the variables. -/
def Expr.type (types : Bytes → Option ValueType) : Expr → Option ValueType
  | .number _ => some .integer
  | .string _ => some .string
  | .boolean _ => some .boolean
  | .var x => types x
  | .negate e => if e.type types = some .integer then some .integer else none
  | .not e => if e.type types = some .boolean then some .boolean else none
  | .binary op left right => do op.type (← left.type types) (← right.type types)

variable {types : Bytes → Option ValueType} {t : ValueType}

/-- When a negation has a type. -/
theorem Expr.type_negate {e : Expr} :
    (Expr.negate e).type types = some t ↔ e.type types = some .integer ∧ t = .integer := by
  simp [Expr.type, eq_comm]

/-- When a logical negation has a type. -/
theorem Expr.type_not {e : Expr} :
    (Expr.not e).type types = some t ↔ e.type types = some .boolean ∧ t = .boolean := by
  simp [Expr.type, eq_comm]

/-- When two operands have a type. -/
theorem Expr.type_binary {op : Binary} {left right : Expr} :
    (Expr.binary op left right).type types = some t ↔
      ∃ l r, left.type types = some l ∧ right.type types = some r ∧ op.type l r = some t := by
  simp only [Expr.type, Option.bind_eq_bind, Option.bind_eq_some_iff]
  constructor
  · rintro ⟨l, hl, r, hr, h⟩
    exact ⟨l, r, hl, hr, h⟩
  · rintro ⟨l, r, hl, hr, h⟩
    exact ⟨l, hl, r, hr, h⟩

/-- The value has the type of the variable. -/
def Assignment.Typed (types : Bytes → Option ValueType) : Assignment → Prop
  | .declare type x e => types x = some type ∧ e.type types = some type
  | .assign x e => ∃ type, types x = some type ∧ e.type types = some type
  | .compound x op e => types x = some .integer ∧ e.type types = some .integer ∧
      op.type .integer .integer = some .integer

/-- Every expression of a statement has the type that its place asks for, and jumps are inside
loops. -/
def Stmt.Typed (types : Bytes → Option ValueType) : Bool → Stmt → Prop
  | _, .skip => True
  | inLoop, .seq first rest => first.Typed types inLoop ∧ rest.Typed types inLoop
  | _, .assignment a => a.Typed types
  | _, .print e => ∃ type, e.type types = some type
  | inLoop, .ifThen c body => c.type types = some .boolean ∧ body.Typed types inLoop
  | inLoop, .ifElse c body other =>
    c.type types = some .boolean ∧ body.Typed types inLoop ∧ other.Typed types inLoop
  | _, .whileDo c body => c.type types = some .boolean ∧ body.Typed types true
  | _, .forDo initial c increment body =>
    initial.Typed types ∧ c.type types = some .boolean ∧ increment.Typed types ∧
      body.Typed types true
  | inLoop, .breakLoop => inLoop = true
  | inLoop, .continueLoop => inLoop = true

/-- Instructions of an expression. -/
def Expr.size : Expr → Nat
  | .number _ | .string _ | .boolean _ | .var _ => 1
  | .negate e | .not e => e.size + 1
  | .binary _ left right => left.size + right.size + 1

/-- Instructions of an assignment. -/
def Assignment.size : Assignment → Nat
  | .declare _ _ e | .assign _ e => e.size + 1
  | .compound _ _ e => e.size + 3

/-- Instructions of a statement. -/
def Stmt.size : Stmt → Nat
  | .skip => 0
  | .seq first rest => first.size + rest.size
  | .assignment a => a.size
  | .print e => e.size + 1
  | .ifThen c body => c.size + 1 + body.size
  | .ifElse c body other => c.size + 1 + body.size + 1 + other.size
  | .whileDo c body => c.size + 1 + body.size + 1
  | .forDo initial c increment body =>
    initial.size + c.size + 2 + increment.size + 1 + body.size + 1
  | .breakLoop | .continueLoop => 1

/-- The code of an expression, from the slots of the variables. -/
def Expr.code (slot : Bytes → Nat) : Expr → List Instruction
  | .number n => [⟨.pushInteger, n.toInt⟩]
  | .string token => [⟨.pushString, token⟩]
  | .boolean b => [⟨.pushBoolean, if b then 1 else 0⟩]
  | .var x => [⟨.load, slot x⟩]
  | .negate e => e.code slot ++ [⟨.negate, 0⟩]
  | .not e => e.code slot ++ [⟨.not, 0⟩]
  | .binary op left right => left.code slot ++ right.code slot ++ [⟨op.op, 0⟩]

/-- The code of an assignment. -/
def Assignment.code (slot : Bytes → Nat) : Assignment → List Instruction
  | .declare _ x e | .assign x e => e.code slot ++ [⟨.store, slot x⟩]
  | .compound x op e => ⟨.load, slot x⟩ :: e.code slot ++ [⟨op.op, 0⟩, ⟨.store, slot x⟩]

/-- The code of a statement that starts at `base`, inside a loop that is continued and left at the
given targets. -/
def Stmt.code (slot : Bytes → Nat) (again exit base : Nat) : Stmt → List Instruction
  | .skip => []
  | .seq first rest =>
    first.code slot again exit base ++ rest.code slot again exit (base + first.size)
  | .assignment a => a.code slot
  | .print e => e.code slot ++ [⟨.print, 0⟩]
  | .ifThen c body =>
    let start := base + c.size + 1
    c.code slot ++ ⟨.jumpIfFalse, start + body.size⟩ :: body.code slot again exit start
  | .ifElse c body other =>
    let start := base + c.size + 1
    let second := start + body.size + 1
    c.code slot ++ ⟨.jumpIfFalse, second⟩ :: body.code slot again exit start ++
      ⟨.jump, second + other.size⟩ :: other.code slot again exit second
  | .whileDo c body =>
    let start := base + c.size + 1
    let last := start + body.size + 1
    c.code slot ++ ⟨.jumpIfFalse, last⟩ :: body.code slot base last start ++ [⟨.jump, base⟩]
  | .forDo initial c increment body =>
    let test := base + initial.size
    let step := test + c.size + 2
    let start := step + increment.size + 1
    let last := start + body.size + 1
    initial.code slot ++ c.code slot ++ [⟨.jumpIfFalse, last⟩, ⟨.jump, start⟩] ++
      increment.code slot ++ ⟨.jump, test⟩ :: body.code slot step last start ++ [⟨.jump, step⟩]
  | .breakLoop => [⟨.jump, exit⟩]
  | .continueLoop => [⟨.jump, again⟩]

/-- The jumps by which a statement leaves the loop around it. -/
def Stmt.breaks (base : Nat) : Stmt → List Nat
  | .seq first rest => first.breaks base ++ rest.breaks (base + first.size)
  | .ifThen c body => body.breaks (base + c.size + 1)
  | .ifElse c body other =>
    body.breaks (base + c.size + 1) ++ other.breaks (base + c.size + 1 + body.size + 1)
  | .breakLoop => [base]
  | _ => []

/-- The size is the length of the code. -/
@[simp] theorem Expr.length_code (slot : Bytes → Nat) (e : Expr) :
    (e.code slot).length = e.size := by
  induction e with
  | number | string | boolean | var => rfl
  | negate e ih | not e ih => simp [code, size, ih]
  | binary op left right ihl ihr => simp [code, size, ihl, ihr, Nat.add_assoc]

/-- The size is the length of the code. -/
@[simp] theorem Assignment.length_code (slot : Bytes → Nat) (a : Assignment) :
    (a.code slot).length = a.size := by
  cases a <;> simp [code, size]

/-- The size is the length of the code, whatever the targets. -/
@[simp] theorem Stmt.length_code (slot : Bytes → Nat) (again exit base : Nat) (s : Stmt) :
    (s.code slot again exit base).length = s.size := by
  induction s generalizing again exit base with
  | skip | breakLoop | continueLoop => rfl
  | seq first rest ihf ihr => simp [code, size, ihf, ihr]
  | assignment | print => simp [code, size]
  | ifThen c body ih | whileDo c body ih | forDo initial c increment body ih =>
    simp [code, size, ih]; omega
  | ifElse c body other ihb iho => simp [code, size, ihb, iho]; omega

/-- The variable that gets a value. -/
def Assignment.name : Assignment → Bytes
  | .declare _ x _ | .assign x _ | .compound x _ _ => x

/-- The value that it gets; `x op= e` is `x = x op e`. -/
def Assignment.value : Assignment → Expr
  | .declare _ _ e | .assign _ e => e
  | .compound x op e => .binary op (.var x) e

/-- The code of the value, and a store. -/
theorem Assignment.code_eq (slot : Bytes → Nat) (a : Assignment) :
    a.code slot = a.value.code slot ++ [⟨.store, slot a.name⟩] := by
  cases a <;> simp [code, value, name, Expr.code]

/-- The instructions of the value, and one. -/
theorem Assignment.size_eq (a : Assignment) : a.size = a.value.size + 1 := by
  cases a <;> simp [size, value, Expr.size]
  omega

/-- The value has the type of the variable. -/
theorem Assignment.Typed.value {a : Assignment} (h : a.Typed types) :
    ∃ type, types a.name = some type ∧ a.value.type types = some type := by
  cases a with
  | declare type x e => exact ⟨type, h⟩
  | assign x e => exact h
  | compound x op e =>
    exact ⟨.integer, h.1, Expr.type_binary.mpr ⟨.integer, .integer, h.1, h.2.1, h.2.2⟩⟩

end NasuaOS.SuaScript
