import NasuaOS.SuaScript.Syntax

/-!
# What SuaScript programs mean

A direct evaluation of the trees: expressions have values, statements change the variables and write.
Numbers have 32 bits and wrap around, both operands of `and` and `or` are evaluated, and the next
round of a `for` loop starts with its increment, also after `continue`. A variable before its first
assignment counts as zero and false. Loops take fuel, and more of it changes nothing.
-/

namespace NasuaOS.SuaScript

open Base Libc

/-- Values of expressions. -/
inductive Value
  | integer (n : Int32)
  | boolean (b : Bool)
  | string (text : Bytes)
  | unassigned
  deriving DecidableEq, Repr

namespace Value

/-- The number that arithmetic sees. -/
def number : Value → Int32
  | .integer n => n
  | .boolean b => if b then 1 else 0
  | _ => 0

/-- The truth value that conditions see. -/
def truth (v : Value) : Bool := v.number != 0

/-- What `print` writes, before the end of the line. -/
def shown : Value → Bytes
  | .integer n => ascii (toString n.toInt).toList
  | .boolean b => ascii (if b then "true" else "false").toList
  | .string text => unescape text
  | .unassigned => ascii "0".toList

end Value

/-- The value of an operator. -/
def Binary.eval (op : Binary) (left right : Value) : Except Fault Value :=
  let l := left.number
  let r := right.number
  match op with
  | .add => .ok (.integer (l + r))
  | .subtract => .ok (.integer (l - r))
  | .multiply => .ok (.integer (l * r))
  | .divide => if r = 0 then .error .divisionByZero else .ok (.integer (l / r))
  | .modulo => if r = 0 then .error .moduloByZero else .ok (.integer (l % r))
  | .less => .ok (.boolean (decide (l < r)))
  | .lessEqual => .ok (.boolean (decide (l ≤ r)))
  | .greater => .ok (.boolean (decide (l > r)))
  | .greaterEqual => .ok (.boolean (decide (l ≥ r)))
  | .equal => .ok (.boolean (decide (left = right)))
  | .notEqual => .ok (.boolean (decide (left ≠ right)))
  | .and => .ok (.boolean (left.truth && right.truth))
  | .or => .ok (.boolean (left.truth || right.truth))

/-- The variables. -/
abbrev Store := Bytes → Value

/-- The variables, and what was written. -/
structure Config where
  store : Store
  output : Bytes

/-- No variable has a value, and nothing was written. -/
def Config.start : Config := ⟨fun _ => .unassigned, []⟩

/-- A variable gets a value. -/
def Config.assign (c : Config) (x : Bytes) (v : Value) : Config :=
  { c with store := Function.update c.store x v }

section

variable (text : Nat → Bytes)

/-- The value of an expression; `text` is that of the string tokens. -/
def Expr.eval (store : Store) : Expr → Except Fault Value
  | .number n => .ok (.integer n)
  | .string token => .ok (.string (text token))
  | .boolean b => .ok (.boolean b)
  | .var x => .ok (store x)
  | .negate e => do return .integer (-(← e.eval store).number)
  | .not e => do return .boolean (!(← e.eval store).truth)
  | .binary op left right => do
    let l ← left.eval store
    let r ← right.eval store
    op.eval l r

/-- How a statement ends. -/
inductive Signal
  | normal
  | breaks
  | continues
  | fault (fault : Fault)
  deriving DecidableEq, Repr

/-- An assignment. -/
def Assignment.exec (c : Config) (a : Assignment) : Except Fault Config := do
  return c.assign a.name (← a.value.eval text c.store)

/-- What follows a computation that may stop the program. -/
def orFault {α : Type} (c : Config) (x : Except Fault α) (f : α → Option (Signal × Config)) :
    Option (Signal × Config) :=
  match x with
  | .error fault => some (.fault fault, c)
  | .ok a => f a

/-- Rounds of a loop: as long as the condition holds, the body and the increment. -/
def rounds (test : Config → Except Fault Value) (increment : Config → Except Fault Config)
    (body : Config → Option (Signal × Config)) : Nat → Config → Option (Signal × Config)
  | 0, _ => none
  | fuel + 1, c =>
    orFault c (test c) fun v =>
      if v.truth then
        match body c with
        | none => none
        | some (.fault fault, c) => some (.fault fault, c)
        | some (.breaks, c) => some (.normal, c)
        | some (_, c) => orFault c (increment c) fun c => rounds test increment body fuel c
      else
        some (.normal, c)

/-- The end of a statement, with fuel for its loops. -/
def Stmt.exec (fuel : Nat) : Stmt → Config → Option (Signal × Config)
  | .skip, c => some (.normal, c)
  | .seq first rest, c =>
    match first.exec fuel c with
    | some (.normal, c) => rest.exec fuel c
    | ending => ending
  | .assignment a, c => orFault c (a.exec text c) fun c => some (.normal, c)
  | .print e, c =>
    orFault c (e.eval text c.store) fun v =>
      some (.normal, { c with output := c.output ++ v.shown ++ [10] })
  | .ifThen condition body, c =>
    orFault c (condition.eval text c.store) fun v =>
      if v.truth then body.exec fuel c else some (.normal, c)
  | .ifElse condition body other, c =>
    orFault c (condition.eval text c.store) fun v =>
      if v.truth then body.exec fuel c else other.exec fuel c
  | .whileDo condition body, c =>
    rounds (fun c => condition.eval text c.store) .ok (body.exec fuel) fuel c
  | .forDo initial condition increment body, c =>
    orFault c (initial.exec text c) fun c =>
      rounds (fun c => condition.eval text c.store) (increment.exec text) (body.exec fuel) fuel c
  | .breakLoop, c => some (.breaks, c)
  | .continueLoop, c => some (.continues, c)

variable {c : Config} {ending : Signal × Config}

/-- How a computation that may stop the program ended. -/
theorem orFault_eq_some {α : Type} {x : Except Fault α} {f : α → Option (Signal × Config)}
    (h : orFault c x f = some ending) :
    (∃ fault, ending = (.fault fault, c)) ∨ ∃ a, f a = some ending := by
  cases x with
  | error fault => exact .inl ⟨fault, (Option.some.inj h).symm⟩
  | ok a => exact .inr ⟨a, h⟩

private theorem orFault_mono {α : Type} {x : Except Fault α} {f g : α → Option (Signal × Config)}
    (hfg : ∀ a, f a = some ending → g a = some ending) (h : orFault c x f = some ending) :
    orFault c x g = some ending := by
  cases x with
  | error fault => exact h
  | ok a => exact hfg a h

/-- More fuel, and a body with more results. -/
theorem rounds_mono {test : Config → Except Fault Value} {increment : Config → Except Fault Config}
    {f g : Config → Option (Signal × Config)}
    (hfg : ∀ c ending, f c = some ending → g c = some ending) {fuel more : Nat}
    (hfuel : fuel ≤ more) (h : rounds test increment f fuel c = some ending) :
    rounds test increment g more c = some ending := by
  induction fuel generalizing more c with
  | zero => cases h
  | succ fuel ih =>
    obtain ⟨more, rfl⟩ := Nat.exists_eq_add_of_le' (Nat.one_le_of_lt hfuel)
    refine orFault_mono (fun v hv => ?_) h
    split at hv
    · next htruth =>
      rw [if_pos htruth]
      cases hf : f c with
      | none => rw [hf] at hv; cases hv
      | some result =>
        rw [hf] at hv
        rw [hfg c result hf]
        obtain ⟨signal, c⟩ := result
        cases signal with
        | fault | breaks => exact hv
        | normal | continues =>
          exact orFault_mono (fun c hc => ih (Nat.le_of_succ_le_succ hfuel) hc) hv
    · next htruth =>
      rw [if_neg htruth]
      exact hv

/-- More fuel changes nothing. -/
theorem Stmt.exec_mono {fuel more : Nat} (hfuel : fuel ≤ more) (p : Stmt)
    (h : p.exec text fuel c = some ending) : p.exec text more c = some ending := by
  induction p generalizing c ending with
  | skip | assignment | print | breakLoop | continueLoop => exact h
  | seq first rest ihf ihr =>
    simp only [Stmt.exec] at h ⊢
    cases hf : first.exec text fuel c with
    | none => rw [hf] at h; cases h
    | some result =>
      rw [hf] at h
      rw [ihf hf]
      obtain ⟨signal, c⟩ := result
      cases signal with
      | normal => exact ihr h
      | breaks | continues | fault => exact h
  | ifThen condition body ih =>
    refine orFault_mono (fun v hv => ?_) h
    split at hv
    · next htruth =>
      rw [if_pos htruth]
      exact ih hv
    · next htruth =>
      rw [if_neg htruth]
      exact hv
  | ifElse condition body other ihb iho =>
    refine orFault_mono (fun v hv => ?_) h
    split at hv
    · next htruth =>
      rw [if_pos htruth]
      exact ihb hv
    · next htruth =>
      rw [if_neg htruth]
      exact iho hv
  | whileDo condition body ih => exact rounds_mono (fun c ending => ih) hfuel h
  | forDo initial condition increment body ih =>
    exact orFault_mono (fun c hc => rounds_mono (fun c ending => ih) hfuel hc) h

end

end NasuaOS.SuaScript
