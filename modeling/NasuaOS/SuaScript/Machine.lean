import NasuaOS.SuaScript.Compiler

/-!
# SuaScript machine

`src/utilities/applications/suaedit/src/suascript.cpp:155–196,1173–1479`. Code runs on a stack of at
most 64 values; the top is the first of the list. A string value is the index of its token, and
arithmetic is done on 64 bits and cut to 32.
-/

namespace NasuaOS.SuaScript

open Base Libc

/-- `max_stack`. -/
def maxStack : Nat := 64

/-- `max_steps`. -/
def maxSteps : Nat := 100000

/-- `RuntimeValue`. -/
structure RuntimeValue where
  type : ValueType
  integer : Int32
  token : Nat
  deriving DecidableEq, Repr

/-- The value of a variable before its first assignment. -/
def unassigned : RuntimeValue := ⟨.invalid, 0, 0⟩

/-- What runs: the code, the number of variables, and the text of each token. -/
structure Executable where
  code : List Instruction
  variableCount : Nat
  text : Nat → Bytes

/-- The variables of `run`, and what was written. -/
structure State where
  pc : Nat
  stack : List RuntimeValue
  values : Nat → RuntimeValue
  output : Bytes

/-- The state in which `run` starts. -/
def State.start : State := ⟨0, [], fun _ => unassigned, []⟩

/-- Why a run stops before the end of its code. -/
inductive Fault
  | invalidState
  | divisionByZero
  | moduloByZero
  deriving DecidableEq, Repr

/-- The text that is written then. -/
def Fault.message : Fault → Bytes
  | .invalidState => ascii "Runtime error: invalid program state\n".toList
  | .divisionByZero => ascii "Runtime error: division by zero\n".toList
  | .moduloByZero => ascii "Runtime error: modulo by zero\n".toList

/-- The digits of `write_unsigned`, last one first; the buffer has room for eleven. -/
def reversedDigits : Nat → Nat → Bytes
  | 0, _ => []
  | room + 1, value =>
    UInt8.ofNat (48 + value % 10) ::
      (if value / 10 = 0 then [] else reversedDigits room (value / 10))

/-- `write_unsigned`. -/
def writeUnsigned (value : Nat) : Bytes := (reversedDigits 11 value).reverse

/-- `write_integer`. -/
def writeInteger (value : Int32) : Bytes :=
  if value < 0 then 45 :: writeUnsigned (-value.toInt).toNat else writeUnsigned value.toInt.toNat

/-- A string with its escapes replaced. `suascript.cpp:1290–1311`. -/
def unescape : Bytes → Bytes
  | [] => []
  | 92 :: escaped :: rest =>
    (if escaped = 110 then 10 else if escaped = 116 then 9 else escaped) :: unescape rest
  | character :: rest => character :: unescape rest

/-- What `print` writes. -/
def printed (text : Nat → Bytes) (value : RuntimeValue) : Bytes :=
  (match value.type with
    | .string => unescape (text value.token)
    | .boolean => ascii (if value.integer = 0 then "false" else "true").toList
    | _ => writeInteger value.integer) ++ [10]

/-- `values_equal`. -/
def valuesEqual (text : Nat → Bytes) (left right : RuntimeValue) : Bool :=
  if left.type ≠ right.type then false
  else if left.type ≠ .string then left.integer == right.integer
  else text left.token == text right.token

/-- A truth value as a number. -/
def flag (b : Bool) : Int32 := if b then 1 else 0

/-- The instructions with two operands. `suascript.cpp:1347–1430`. -/
def combine (text : Nat → Bytes) (op : Op) (left right : RuntimeValue) :
    Except Fault RuntimeValue :=
  let l := left.integer
  let r := right.integer
  match op with
  | .add => .ok ⟨.integer, Int32.ofInt (l.toInt + r.toInt), 0⟩
  | .subtract => .ok ⟨.integer, Int32.ofInt (l.toInt - r.toInt), 0⟩
  | .multiply => .ok ⟨.integer, Int32.ofInt (l.toInt * r.toInt), 0⟩
  | .divide =>
    if r = 0 then .error .divisionByZero
    else if l = Int32.minValue ∧ r = -1 then .ok ⟨.integer, l, 0⟩
    else .ok ⟨.integer, Int32.ofInt (l.toInt.tdiv r.toInt), 0⟩
  | .modulo =>
    if r = 0 then .error .moduloByZero
    else if l = Int32.minValue ∧ r = -1 then .ok ⟨.integer, 0, 0⟩
    else .ok ⟨.integer, Int32.ofInt (l.toInt.tmod r.toInt), 0⟩
  | .equal => .ok ⟨.boolean, flag (valuesEqual text left right), 0⟩
  | .notEqual => .ok ⟨.boolean, flag (!valuesEqual text left right), 0⟩
  | .less => .ok ⟨.boolean, flag (decide (l < r)), 0⟩
  | .lessEqual => .ok ⟨.boolean, flag (decide (l ≤ r)), 0⟩
  | .greater => .ok ⟨.boolean, flag (decide (r < l)), 0⟩
  | .greaterEqual => .ok ⟨.boolean, flag (decide (r ≤ l)), 0⟩
  | .and => .ok ⟨.boolean, flag (l != 0 && r != 0), 0⟩
  | .or => .ok ⟨.boolean, flag (l != 0 || r != 0), 0⟩
  | _ => .error .invalidState

namespace State

/-- `push`, behind the instruction. -/
def push (s : State) (value : RuntimeValue) : Except Fault State :=
  if maxStack ≤ s.stack.length then .error .invalidState
  else .ok { s with pc := s.pc + 1, stack := value :: s.stack }

/-- A jump, if its target is not behind the end. -/
def jump (s : State) (p : Executable) (target : Int) : Except Fault State :=
  if target < 0 ∨ p.code.length < target then .error .invalidState
  else .ok { s with pc := target.toNat }

/-- One instruction. -/
def execute (s : State) (p : Executable) (i : Instruction) : Except Fault State :=
  match i.op, s.stack with
  | .pushInteger, _ => s.push ⟨.integer, Int32.ofInt i.operand, 0⟩
  | .pushBoolean, _ => s.push ⟨.boolean, Int32.ofInt i.operand, 0⟩
  | .pushString, _ => s.push ⟨.string, 0, i.operand.toNat⟩
  | .load, _ =>
    if i.operand < 0 ∨ p.variableCount ≤ i.operand then .error .invalidState
    else s.push (s.values i.operand.toNat)
  | .store, value :: rest =>
    if i.operand < 0 ∨ p.variableCount ≤ i.operand then .error .invalidState
    else .ok { s with
      pc := s.pc + 1
      stack := rest
      values := Function.update s.values i.operand.toNat value }
  | .negate, value :: rest =>
    { s with stack := rest }.push ⟨.integer, Int32.ofInt (-value.integer.toInt), 0⟩
  | .not, value :: rest =>
    { s with stack := rest }.push ⟨.boolean, flag (value.integer == 0), 0⟩
  | .print, value :: rest =>
    .ok { s with pc := s.pc + 1, stack := rest, output := s.output ++ printed p.text value }
  | .jump, _ => s.jump p i.operand
  | .jumpIfFalse, value :: rest =>
    if value.integer = 0 then { s with stack := rest }.jump p i.operand
    else .ok { s with pc := s.pc + 1, stack := rest }
  | op, right :: left :: rest => do
    let result ← combine p.text op left right
    { s with stack := rest }.push result
  | _, _ => .error .invalidState

/-- The next state, before the end of the code. -/
def next (s : State) (p : Executable) : Except Fault State :=
  match p.code[s.pc]? with
  | none => .error .invalidState
  | some i => s.execute p i

end State

/-- How a run ends. -/
inductive Finish
  | completed (output : Bytes)
  | stopped (fault : Fault) (output : Bytes)
  | limit (output : Bytes)
  deriving DecidableEq, Repr

/-- The loop of `run`, with the number of steps that are left. -/
def runFrom (p : Executable) : Nat → State → Finish
  | steps, s =>
    if p.code.length ≤ s.pc then .completed s.output
    else
      match steps with
      | 0 => .limit s.output
      | steps + 1 =>
        match s.next p with
        | .error fault => .stopped fault s.output
        | .ok s => runFrom p steps s

/-- `run`. -/
def run (p : Executable) : Finish := runFrom p maxSteps .start

/-- All that a run writes. -/
def Finish.written : Finish → Bytes
  | .completed output => output
  | .stopped fault output => output ++ fault.message
  | .limit output => output ++ ascii "Runtime error: instruction limit exceeded\n".toList

/-- `report_error`. -/
def ScriptError.report (e : ScriptError) : Bytes :=
  ascii "Compile error: ".toList ++ ascii e.message.toList ++ ascii " at line ".toList ++
    writeUnsigned e.line ++ [10]

/-- The code of a program that is accepted, or the error. -/
def build (source : Bytes) :
    Reading (Except ScriptError (Executable × List Token × Engine)) := do
  match ← tokenize source with
  | .error error => return .error error
  | .ok tokens =>
    let (accepted, engine) ← compile source tokens (tokens.length + 1) .start
    match engine.error with
    | some error => return .error error
    | none =>
      if accepted then
        return .ok (⟨engine.code, engine.vars.length,
          fun i => tokenText source (tokenAt tokens i)⟩, tokens, engine)
      else
        return .error ⟨"unknown error", 0⟩

/-- `compile_and_run`: what is returned and what is written. -/
def compileAndRun (source : Bytes) : Reading (Bool × Bytes) := do
  match ← build source with
  | .error error => return (false, error.report)
  | .ok (p, _) =>
    match run p with
    | .completed output => return (true, output)
    | finish => return (false, finish.written)

end NasuaOS.SuaScript
