import NasuaOS.Base.Triples
import NasuaOS.Libc.Strings

/-!
# SuaScript tokens

`src/utilities/applications/suaedit/src/suascript.cpp:14–72,198–545`. The source is a list of bytes;
its length, positions in it and line numbers are 16-bit numbers in the code. A character is compared
as a byte: those above 127 are negative there and in no range that is asked for.
-/

namespace NasuaOS.SuaScript

open Base Libc

/-- `max_tokens`. -/
def maxTokens : Nat := 512

/-- `TokenKind`. -/
inductive TokenKind
  | endOfSource
  | identifier
  | number
  | string
  | intType
  | boolType
  | stringType
  | trueLiteral
  | falseLiteral
  | print
  | ifKeyword
  | elseKeyword
  | whileKeyword
  | forKeyword
  | breakKeyword
  | continueKeyword
  | and
  | or
  | not
  | leftParen
  | rightParen
  | leftBrace
  | rightBrace
  | semicolon
  | assign
  | plus
  | plusAssign
  | minus
  | minusAssign
  | star
  | starAssign
  | slash
  | slashAssign
  | percent
  | percentAssign
  | equal
  | notEqual
  | less
  | lessEqual
  | greater
  | greaterEqual
  deriving DecidableEq, Repr

/-- `Token`. -/
structure Token where
  kind : TokenKind
  start : Nat
  length : Nat
  line : Nat
  number : Int32
  deriving DecidableEq, Repr

/-- The message that is kept, and its line. -/
structure ScriptError where
  message : String
  line : Nat
  deriving DecidableEq, Repr

/-- The characters of a token. -/
def tokenText (source : Bytes) (token : Token) : Bytes :=
  (source.drop token.start).take token.length

/-- A 16-bit number that goes up. -/
def forward (x n : Nat) : Nat := (x + n) % 2 ^ 16

/-- `keyword_kind`. -/
def keywordKind (text : Bytes) : TokenKind :=
  if text = ascii ['i', 'n', 't'] then .intType
  else if text = ascii ['b', 'o', 'o', 'l'] then .boolType
  else if text = ascii ['s', 't', 'r', 'i', 'n', 'g'] then .stringType
  else if text = ascii ['t', 'r', 'u', 'e'] then .trueLiteral
  else if text = ascii ['f', 'a', 'l', 's', 'e'] then .falseLiteral
  else if text = ascii ['p', 'r', 'i', 'n', 't'] then .print
  else if text = ascii ['i', 'f'] then .ifKeyword
  else if text = ascii ['e', 'l', 's', 'e'] then .elseKeyword
  else if text = ascii ['w', 'h', 'i', 'l', 'e'] then .whileKeyword
  else if text = ascii ['f', 'o', 'r'] then .forKeyword
  else if text = ascii ['b', 'r', 'e', 'a', 'k'] then .breakKeyword
  else if text = ascii ['c', 'o', 'n', 't', 'i', 'n', 'u', 'e'] then .continueKeyword
  else if text = ascii ['a', 'n', 'd'] then .and
  else if text = ascii ['o', 'r'] then .or
  else if text = ascii ['n', 'o', 't'] then .not
  else .identifier

/-- A character that starts a name. -/
def nameStart (c : UInt8) : Bool := (97 ≤ c && c ≤ 122) || (65 ≤ c && c ≤ 90) || c == 95

/-- A digit. -/
def digit (c : UInt8) : Bool := 48 ≤ c && c ≤ 57

/-- The value of the digits that start a text, unless it grows too large. `suascript.cpp:360–368`. -/
def readNumber : Bytes → Nat → Option Nat
  | [], number => some number
  | c :: rest, number =>
    if digit c then
      let number := number * 10 + (c.toNat - 48)
      if 2147483647 < number then none else readNumber rest number
    else some number

/-- The characters before the quote that ends a string. `suascript.cpp:378–385`. -/
def stringLength : Bytes → Option Nat
  | [] => none
  | 34 :: _ => some 0
  | 10 :: _ => none
  | 92 :: _ :: rest => (stringLength rest).map (· + 2)
  | _ :: rest => (stringLength rest).map (· + 1)

/-- The operator or bracket at the start of a text, and its length. `suascript.cpp:397–537`. -/
def punctuation (text : Bytes) : Option (TokenKind × Nat) :=
  let orAssign (next : Bytes) (single double : TokenKind) : Option (TokenKind × Nat) :=
    if next.head? = some 61 then some (double, 2) else some (single, 1)
  match text with
  | 40 :: _ => some (.leftParen, 1)
  | 41 :: _ => some (.rightParen, 1)
  | 123 :: _ => some (.leftBrace, 1)
  | 125 :: _ => some (.rightBrace, 1)
  | 59 :: _ => some (.semicolon, 1)
  | 43 :: next => orAssign next .plus .plusAssign
  | 45 :: next => orAssign next .minus .minusAssign
  | 42 :: next => orAssign next .star .starAssign
  | 47 :: next => orAssign next .slash .slashAssign
  | 37 :: next => orAssign next .percent .percentAssign
  | 61 :: next => orAssign next .assign .equal
  | 33 :: next => orAssign next .not .notEqual
  | 60 :: next => orAssign next .less .lessEqual
  | 62 :: next => orAssign next .greater .greaterEqual
  | _ => none

/-- One round of the loop of `tokenize`: a blank or comment, a token, or an error. -/
inductive Round
  | blank (position line : Nat)
  | token (token : Token) (position : Nat)
  | error (error : ScriptError)

/-- One round, before the end of the source. -/
def scan (source : Bytes) (position line : Nat) : Round :=
  let text := source.drop position
  let character := text.headD 0
  let comment := (text.takeWhile (· != 10)).length
  if character = 32 ∨ character = 9 ∨ character = 13 then .blank (forward position 1) line
  else if character = 10 then .blank (forward position 1) (forward line 1)
  else if character = 35 then .blank (forward position comment) line
  else if character = 47 ∧ (text.drop 1).head? = some 47 then
    .blank (forward position comment) line
  else if nameStart character then
    let length := (text.takeWhile fun c => nameStart c || digit c).length
    .token ⟨keywordKind (text.take length), position, length, line, 0⟩ (forward position length)
  else if digit character then
    let length := (text.takeWhile digit).length
    match readNumber text 0 with
    | none => .error ⟨"integer literal is too large", line⟩
    | some number =>
      .token ⟨.number, position, length, line, Int32.ofNat number⟩ (forward position length)
  else if character = 34 then
    let start := forward position 1
    match stringLength (source.drop start) with
    | none => .error ⟨"unterminated string", line⟩
    | some length => .token ⟨.string, start, length, line, 0⟩ (forward start (length + 1))
  else
    match punctuation text with
    | none => .error ⟨"unexpected character", line⟩
    | some (kind, length) => .token ⟨kind, position, length, line, 0⟩ (forward position length)

/-- `add_token`. -/
def addToken (tokens : List Token) (token : Token) : Except ScriptError (List Token) :=
  if maxTokens - 1 ≤ tokens.length then .error ⟨"too many tokens", token.line⟩
  else .ok (tokens ++ [token])

/-- The loop of `tokenize`, for as many rounds as there is fuel. -/
def tokenizeFrom (source : Bytes) :
    Nat → Nat → Nat → List Token → Reading (Except ScriptError (List Token))
  | 0, _, _, _ => .error .outOfFuel
  | fuel + 1, position, line, tokens =>
    if source.length ≤ position then
      .ok (addToken tokens ⟨.endOfSource, source.length, 0, line, 0⟩)
    else
      match scan source position line with
      | .error error => .ok (.error error)
      | .blank position line => tokenizeFrom source fuel position line tokens
      | .token token position =>
        match addToken tokens token with
        | .error error => .ok (.error error)
        | .ok tokens => tokenizeFrom source fuel position line tokens

/-- `tokenize`; every round but the last takes a character. -/
def tokenize (source : Bytes) : Reading (Except ScriptError (List Token)) :=
  tokenizeFrom source (source.length + 1) 0 1 []

end NasuaOS.SuaScript
