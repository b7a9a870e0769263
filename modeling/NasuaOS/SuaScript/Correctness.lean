import NasuaOS.Base.Segments
import NasuaOS.SuaScript.Evaluation
import NasuaOS.SuaScript.Statements

/-!
# Runs of compiled programs

A run that ends regularly, at the end of its code or at a division by zero, does what the direct
evaluation does. The argument goes along the run: from a state before the code of an expression the
run reaches the state behind it with the value on the stack, or it stops as the evaluation does. For
statements the evaluation says where the run goes on, and for loops the number of steps that are left
decreases.
-/

namespace NasuaOS.SuaScript

open Base Libc Function

/-! ### Values -/

/-- The type of a value. -/
def Value.type : Value → ValueType
  | .integer _ => .integer
  | .boolean _ => .boolean
  | .string _ => .string
  | .unassigned => .invalid

/-- A value of the machine stands for a value. -/
structure Represents (text : Nat → Bytes) (v : Value) (r : RuntimeValue) : Prop where
  type : r.type = v.type
  integer : r.integer = v.number
  token : ∀ w, v = .string w → text r.token = w

namespace Represents

variable {text : Nat → Bytes}

private theorem number {n m : Int32} (token : Nat) (h : n = m) :
    Represents text (.integer m) ⟨.integer, n, token⟩ := ⟨rfl, h, nofun⟩

private theorem boolean {a b : Bool} (token : Nat) (h : a = b) :
    Represents text (.boolean b) ⟨.boolean, flag a, token⟩ := by
  subst h
  exact ⟨rfl, by cases a <;> rfl, nofun⟩

private theorem truth {v : Value} {r : RuntimeValue} (h : Represents text v r) :
    (r.integer = 0) ↔ v.truth = false := by
  simp [Value.truth, h.integer]

private theorem valuesEqual {v w : Value} {r q : RuntimeValue} (hv : Represents text v r)
    (hw : Represents text w q) : valuesEqual text r q = decide (v = w) := by
  unfold SuaScript.valuesEqual
  rw [hv.type, hw.type, hv.integer, hw.integer]
  cases v <;> cases w
  case string.string a b => simp [Value.type, hv.token a rfl, hw.token b rfl, beq_eq_decide]
  case boolean.boolean a b => cases a <;> cases b <;> rfl
  case integer.integer a b => simp [Value.type, Value.number, beq_eq_decide]
  all_goals simp [Value.type, Value.number]

end Represents

private theorem ofInt_tdiv (l r : Int32) : Int32.ofInt (l.toInt.tdiv r.toInt) = l / r := by
  apply Int32.toInt_inj.mp
  rw [Int32.toInt_ofInt, Int32.toInt_div]

private theorem ofInt_tmod (l r : Int32) : Int32.ofInt (l.toInt.tmod r.toInt) = l % r := by
  rw [← Int32.ofInt_toInt (l % r), Int32.toInt_mod]

/-- Two computations fail alike or have results that belong together. -/
inductive Alike {α β : Type} (R : α → β → Prop) : Except Fault α → Except Fault β → Prop
  | ok {a : α} {b : β} (h : R a b) : Alike R (.ok a) (.ok b)
  | error (f : Fault) : Alike R (.error f) (.error f)

variable {text : Nat → Bytes} {v : Value} {r : RuntimeValue} {n fuel : Nat} {p : Executable}
  {R : Finish} {s : State} {vars : List Variable} {store : Store} {c c' : Config}
  {stack : List RuntimeValue} {signal : Signal} {test : Config → Except Fault Value}
  {increment : Config → Except Fault Config}

private theorem combine_eval (op : Binary) {w : Value} {l : RuntimeValue} (hv : Represents text v l)
    (hw : Represents text w r) :
    Alike (Represents text) (op.eval v w) (combine text op.op l r) := by
  unfold Binary.eval combine
  rw [hv.integer, hw.integer]
  cases op with
  | add | subtract | multiply =>
    exact .ok (.number 0 (by
      simp only [Int32.ofInt_add, Int32.ofInt_sub, Int32.ofInt_mul, Int32.ofInt_toInt]))
  | divide | modulo =>
    simp only [Binary.op]
    split_ifs with hzero hmin
    · exact .error _
    · rw [hmin.1, hmin.2]
      exact .ok (.number 0 (by decide))
    · exact .ok (.number 0 (by simp only [ofInt_tdiv, ofInt_tmod]))
  | less | lessEqual | greater | greaterEqual | and | or => exact .ok (.boolean 0 rfl)
  | equal => exact .ok (.boolean 0 (hv.valuesEqual hw))
  | notEqual => exact .ok (.boolean 0 (by rw [hv.valuesEqual hw, decide_not]))

/-! ### Output -/

private theorem digitChar_byte :
    ∀ n < 10, UInt8.ofNat (Nat.digitChar n).toNat = UInt8.ofNat (48 + n) := by
  decide

private theorem reversedDigits_reverse {room : Nat} (hroom : room ≠ 0) (h : n < 10 ^ room) :
    (reversedDigits room n).reverse = ascii (Nat.toDigits 10 n) := by
  induction room generalizing n with
  | zero => exact absurd rfl hroom
  | succ room ih =>
    have hdigit := digitChar_byte (n % 10) (Nat.mod_lt n (by decide))
    rw [reversedDigits, List.reverse_cons, Nat.toDigits_eq_if (by decide)]
    split
    · next hq =>
      have hlt : n < 10 := by omega
      rw [if_pos hlt]
      rw [Nat.mod_eq_of_lt hlt] at hdigit ⊢
      simp [ascii, hdigit]
    · next hq =>
      have hlt : ¬n < 10 := by omega
      have hn : n / 10 < 10 ^ room := by rw [Nat.pow_succ] at h; omega
      have hne : room ≠ 0 := by rintro rfl; omega
      rw [if_neg hlt, ih hne hn]
      simp [ascii, hdigit]

private theorem writeInteger_eq (n : Int32) : writeInteger n = ascii (toString n.toInt).toList := by
  have hlow : -2 ^ 31 ≤ n.toInt := Int32.le_toInt n
  have hhigh : n.toInt < 2 ^ 31 := Int32.toInt_lt n
  have hsign : n < 0 ↔ n.toInt < 0 := Int32.lt_iff_toInt_lt
  unfold writeInteger writeUnsigned
  cases hn : n.toInt with
  | ofNat m =>
    rw [hn] at hhigh hsign
    have hm : m < 10 ^ 11 := by simp at hhigh; omega
    have htext : (toString (Int.ofNat m)).toList = Nat.toDigits 10 m := by
      change (Nat.repr m).toList = _
      simp [Nat.repr]
    rw [if_neg (by simp [hsign]), htext]
    exact reversedDigits_reverse (by decide) hm
  | negSucc m =>
    rw [hn] at hlow hsign
    have hm : m + 1 < 10 ^ 11 := by simp [Int.negSucc_eq] at hlow; omega
    rw [if_pos (hsign.mpr (Int.negSucc_lt_zero m))]
    have hdigits := reversedDigits_reverse (by decide) hm
    have htext : (toString (Int.negSucc m)).toList = '-' :: Nat.toDigits 10 (m + 1) := by
      change ("-" ++ Nat.repr (m + 1)).toList = _
      simp [Nat.repr]
    rw [htext]
    exact congrArg (45 :: ·) hdigits

private theorem printed_eq (h : Represents text v r) : printed text r = v.shown ++ [10] := by
  unfold printed
  rw [h.type, h.integer]
  cases v with
  | integer n => simp only [Value.type, Value.shown, Value.number, writeInteger_eq]
  | boolean b => cases b <;> rfl
  | string w => simp only [Value.type, Value.shown, h.token w rfl]
  | unassigned => rfl

/-! ### Regular runs -/

/-- The end of the code was reached, or there was a division by zero. -/
def Finish.Regular : Finish → Prop
  | .completed _ => True
  | .stopped fault _ => fault ≠ .invalidState
  | .limit _ => False

/-- The run from a state, with a number of steps left, ends regularly. -/
structure Live (p : Executable) (n : Nat) (s : State) (R : Finish) : Prop where
  run : runFrom p n s = R
  regular : R.Regular

namespace Live

variable {p : Executable} {n : Nat} {s t u : State} {R : Finish} {i : Instruction}

private theorem step (h : Live p n s R) (hi : p.code[s.pc]? = some i) : ∃ m, n = m + 1 ∧
    ((∃ t, s.execute p i = .ok t ∧ Live p m t R) ∨
      ∃ f, s.execute p i = .error f ∧ f ≠ .invalidState ∧ R = .stopped f s.output) := by
  have hlt : ¬p.code.length ≤ s.pc := by
    obtain ⟨hlt, -⟩ := List.getElem?_eq_some_iff.mp hi
    omega
  obtain ⟨hrun, hregular⟩ := h
  cases n with
  | zero =>
    rw [runFrom, if_neg hlt] at hrun
    subst hrun
    exact absurd hregular id
  | succ n =>
    rw [runFrom, if_neg hlt] at hrun
    simp only [State.next, hi] at hrun
    refine ⟨n, rfl, ?_⟩
    split at hrun
    · next f hf =>
      subst hrun
      exact .inr ⟨f, hf, hregular, rfl⟩
    · next t ht => exact .inl ⟨t, ht, hrun, hregular⟩

private theorem ok (h : Live p n s R) (hi : p.code[s.pc]? = some i) (ht : s.execute p i = .ok t) :
    ∃ m, n = m + 1 ∧ Live p m t R := by
  obtain ⟨m, hn, ⟨t', ht', hlive⟩ | ⟨f, hf, -⟩⟩ := h.step hi
  · obtain rfl := Except.ok.inj (ht.symm.trans ht')
    exact ⟨m, hn, hlive⟩
  · exact absurd (ht.symm.trans hf) nofun

private theorem checked {c : Prop} [Decidable c] (h : Live p n s R) (hi : p.code[s.pc]? = some i)
    (hr : s.execute p i = if c then .error .invalidState else .ok t) :
    ∃ m, n = m + 1 ∧ Live p m t R := by
  split at hr
  · obtain ⟨m, -, ⟨t, ht, -⟩ | ⟨f, hf, hne, -⟩⟩ := h.step hi
    · exact absurd (hr.symm.trans ht) nofun
    · exact absurd (Except.error.inj (hr.symm.trans hf)).symm hne
  · exact h.ok hi hr

private theorem push {r : RuntimeValue} (h : Live p n s R) (hi : p.code[s.pc]? = some i)
    (hr : s.execute p i = u.push r) :
    ∃ m, n = m + 1 ∧ Live p m { u with pc := u.pc + 1, stack := r :: u.stack } R := by
  rw [State.push] at hr
  exact h.checked hi hr

private theorem jump {target : Nat} (h : Live p n s R) (hi : p.code[s.pc]? = some i)
    (hr : s.execute p i = u.jump p target) :
    ∃ m, n = m + 1 ∧ Live p m { u with pc := target } R := by
  rw [State.jump] at hr
  exact h.checked hi hr

end Live

/-! ### Instructions -/

namespace State

variable {p : Executable} {s : State}

/-- Loading a variable. -/
theorem execute_load {slot : Nat} (h : slot < p.variableCount) :
    s.execute p ⟨.load, slot⟩ = s.push (s.values slot) := by
  change (if (slot : Int) < 0 ∨ (p.variableCount : Int) ≤ slot then _ else _) = _
  rw [if_neg (by omega)]
  rfl

/-- Storing a variable. -/
theorem execute_store {slot : Nat} {r : RuntimeValue} {rest : List RuntimeValue}
    (h : slot < p.variableCount) (hs : s.stack = r :: rest) :
    s.execute p ⟨.store, slot⟩ = .ok { s with
      pc := s.pc + 1, stack := rest, values := update s.values slot r } := by
  unfold execute
  rw [hs]
  change (if (slot : Int) < 0 ∨ (p.variableCount : Int) ≤ slot then _ else _) = _
  rw [if_neg (by omega)]
  rfl

/-- An operator. -/
theorem execute_binary (op : Binary) {operand : Int} {l r : RuntimeValue}
    {rest : List RuntimeValue} (hs : s.stack = r :: l :: rest) : s.execute p ⟨op.op, operand⟩ =
      (combine p.text op.op l r).bind fun q => { s with stack := rest }.push q := by
  unfold execute
  rw [hs]
  cases op <;> rfl

end State

/-! ### Expressions -/

/-- The variables of the machine stand for those of the evaluation. -/
def Agrees (text : Nat → Bytes) (vars : List Variable) (store : Store)
    (values : Nat → RuntimeValue) : Prop :=
  ∀ x slot, slotOf vars x = some slot → Represents text (store x) (values slot)

/-- The end of an expression: the run goes on with its value, or it stops as the evaluation
does. -/
inductive Evaluates (p : Executable) (R : Finish) (n : Nat) (s : State) (size : Nat) :
    Except Fault Value → Prop
  | value {v : Value} (m : Nat) (r : RuntimeValue) (hn : n = m + size)
      (hr : Represents p.text v r)
      (hlive : Live p m { s with pc := s.pc + size, stack := r :: s.stack } R) :
      Evaluates p R n s size (.ok v)
  | fault (f : Fault) (hR : R = .stopped f s.output) : Evaluates p R n s size (.error f)

private theorem Live.binary {op : Binary} {w : Value} {l : RuntimeValue} {k size : Nat} {t : State}
    (h : Live p k t R) (hi : p.code[t.pc]? = some ⟨op.op, 0⟩)
    (ht : t = { s with pc := t.pc, stack := r :: l :: s.stack }) (hl : Represents p.text v l)
    (hr : Represents p.text w r) (hn : n + 1 = k + size) (hpc : t.pc + 1 = s.pc + size) :
    Evaluates p R n s size (op.eval v w) := by
  have hstack : t.stack = r :: l :: s.stack := by rw [ht]
  have hexec := @State.execute_binary p t op 0 l r s.stack hstack
  have hcombine := combine_eval op hl hr
  generalize op.eval v w = x at hcombine ⊢
  generalize combine p.text op.op l r = y at hcombine hexec
  cases hcombine with
  | error f =>
    obtain ⟨m, -, ⟨u, hu, -⟩ | ⟨g, hg, -, hR⟩⟩ := h.step hi
    · rw [hexec] at hu
      cases hu
    · rw [hexec] at hg
      cases hg
      exact .fault f (by rw [hR, ht])
  | ok hq =>
    obtain ⟨m, hm, hlive⟩ := h.push hi hexec
    refine .value m _ (by omega) hq ?_
    rw [← hpc]
    rw [ht] at hlive ⊢
    exact hlive

private theorem Live.expr {e : Expr} {type : ValueType} (h : Live p n s R)
    (hcode : SegmentAt p.code s.pc (e.code (slotIn vars)))
    (htype : e.type (typesIn vars) = some type) (hcount : p.variableCount = vars.length)
    (hagree : Agrees p.text vars store s.values) :
    Evaluates p R n s e.size (e.eval p.text store) := by
  induction e generalizing n s type with
  | number k =>
    obtain ⟨m, hn, hlive⟩ := h.push hcode.head rfl
    exact .value m _ hn (.number 0 (Int32.ofInt_toInt k)) hlive
  | string token =>
    obtain ⟨m, hn, hlive⟩ := h.push hcode.head rfl
    exact .value m _ hn ⟨rfl, rfl, fun w hw => Value.string.inj hw⟩ hlive
  | boolean b =>
    obtain ⟨m, hn, hlive⟩ := h.push hcode.head rfl
    exact .value m _ hn ⟨rfl, by cases b <;> rfl, nofun⟩ hlive
  | var x =>
    obtain ⟨slot, hslot⟩ := exists_slotOf htype
    have hi := hcode.head
    rw [slotIn_eq (List.prefix_refl vars) hslot] at hi
    obtain ⟨m, hn, hlive⟩ := h.push hi (State.execute_load (hcount ▸ slotOf_lt hslot))
    exact .value m _ hn (hagree x slot hslot) hlive
  | negate e ih =>
    have he := ih h hcode.left (Expr.type_negate.mp htype).1 hagree
    simp only [Expr.eval]
    generalize e.eval p.text store = x at he ⊢
    cases he with
    | fault f hR => exact .fault f hR
    | value m r hn hr hlive =>
      have hi := hcode.right.head
      rw [Expr.length_code] at hi
      obtain ⟨k, hm, hlive⟩ := hlive.push hi rfl
      refine .value k _ (by rw [Expr.size]; omega) ?_ hlive
      exact .number 0 (by rw [Int32.ofInt_neg, Int32.ofInt_toInt, hr.integer])
  | not e ih =>
    have he := ih h hcode.left (Expr.type_not.mp htype).1 hagree
    simp only [Expr.eval]
    generalize e.eval p.text store = x at he ⊢
    cases he with
    | fault f hR => exact .fault f hR
    | value m r hn hr hlive =>
      have hi := hcode.right.head
      rw [Expr.length_code] at hi
      obtain ⟨k, hm, hlive⟩ := hlive.push hi rfl
      refine .value k _ (by rw [Expr.size]; omega) ?_ hlive
      exact .boolean 0 (by rw [Value.truth, hr.integer]; simp [bne])
  | binary op left right ihl ihr =>
    obtain ⟨tl, tr, htl, htr, -⟩ := Expr.type_binary.mp htype
    have hl := ihl h hcode.left.left htl hagree
    simp only [Expr.eval]
    generalize left.eval p.text store = x at hl ⊢
    cases hl with
    | fault f hR => exact .fault f hR
    | value m r hn hr hlive =>
      have hseg := hcode.left.right
      rw [Expr.length_code] at hseg
      have hright := ihr hlive hseg htr hagree
      generalize right.eval p.text store = y at hright ⊢
      cases hright with
      | fault f hR => exact .fault f hR
      | value k q hk hq hlive =>
        have hi := hcode.right.head
        rw [List.length_append, Expr.length_code, Expr.length_code, ← Nat.add_assoc] at hi
        have hpc : s.pc + left.size + right.size + 1 = s.pc + (Expr.binary op left right).size := by
          rw [Expr.size]
          omega
        exact hlive.binary hi rfl hr hq (by rw [Expr.size]; omega) hpc

/-! ### Assignments -/

private theorem Agrees.assign {values : Nat → RuntimeValue} {x : Bytes} {slot : Nat}
    (h : Agrees text vars store values) (hslot : slotOf vars x = some slot)
    (hr : Represents text v r) :
    Agrees text vars (update store x v) (update values slot r) := by
  intro y k hk
  by_cases hy : y = x
  · subst hy
    obtain rfl := Option.some.inj (hslot.symm.trans hk)
    rwa [update_self, update_self]
  · have hne : k ≠ slot := by
      rintro rfl
      exact hy ((name_of_slotOf hk).symm.trans (name_of_slotOf hslot))
    rw [update_of_ne hy, update_of_ne hne]
    exact h y k hk

/-- The run is at a position, with the variables and the output of the evaluation. -/
inductive Goes (p : Executable) (vars : List Variable) (R : Finish) (n : Nat)
    (stack : List RuntimeValue) (c : Config) (pc : Nat) : Prop
  | intro (m : Nat) (values : Nat → RuntimeValue) (hm : m ≤ n)
      (hagree : Agrees p.text vars c.store values)
      (hlive : Live p m ⟨pc, stack, values, c.output⟩ R)

/-- The end of a computation that changes the variables. -/
inductive Settles (p : Executable) (vars : List Variable) (R : Finish) (n : Nat)
    (stack : List RuntimeValue) (c : Config) (pc : Nat) : Except Fault Config → Prop
  | ok {c' : Config} (h : Goes p vars R n stack c' pc) : Settles p vars R n stack c pc (.ok c')
  | fault (f : Fault) (hR : R = .stopped f c.output) : Settles p vars R n stack c pc (.error f)

private theorem Live.assignment {a : Assignment} (h : Live p n s R)
    (hcode : SegmentAt p.code s.pc (a.code (slotIn vars))) (htyped : a.Typed (typesIn vars))
    (hcount : p.variableCount = vars.length) (hagree : Agrees p.text vars c.store s.values)
    (houtput : s.output = c.output) :
    Settles p vars R n s.stack c (s.pc + a.size) (a.exec p.text c) := by
  obtain ⟨type, hname, hvalue⟩ := htyped.value
  obtain ⟨slot, hslot⟩ := exists_slotOf hname
  rw [a.code_eq] at hcode
  have he := h.expr hcode.left hvalue hcount hagree
  have hi := hcode.right.head
  rw [Expr.length_code, slotIn_eq (List.prefix_refl vars) hslot] at hi
  rw [a.size_eq]
  unfold Assignment.exec
  generalize a.value.eval p.text c.store = x at he ⊢
  cases he with
  | fault f hR => exact .fault f (by rw [hR, houtput])
  | value m r hn hr hlive =>
    obtain ⟨k, hm, hlive⟩ := hlive.ok hi (State.execute_store (hcount ▸ slotOf_lt hslot) rfl)
    refine .ok ⟨k, _, by omega, hagree.assign hslot hr, ?_⟩
    rw [houtput] at hlive
    exact hlive

/-! ### Conditions -/

/-- The end of a condition: the run goes on behind it or at its target. -/
inductive Tests (p : Executable) (R : Finish) (n : Nat) (s : State) (size target : Nat) :
    Except Fault Value → Prop
  | pass {v : Value} (hv : v.truth = true) (m : Nat) (hm : m < n)
      (hlive : Live p m { s with pc := s.pc + size + 1 } R) : Tests p R n s size target (.ok v)
  | fail {v : Value} (hv : v.truth = false) (m : Nat) (hm : m < n)
      (hlive : Live p m { s with pc := target } R) : Tests p R n s size target (.ok v)
  | fault (f : Fault) (hR : R = .stopped f s.output) : Tests p R n s size target (.error f)

private theorem Live.condition {e : Expr} {type : ValueType} {target : Nat} (h : Live p n s R)
    (hcode : SegmentAt p.code s.pc (e.code (slotIn vars)))
    (hi : p.code[s.pc + e.size]? = some ⟨.jumpIfFalse, target⟩)
    (htype : e.type (typesIn vars) = some type) (hcount : p.variableCount = vars.length)
    (hagree : Agrees p.text vars store s.values) :
    Tests p R n s e.size target (e.eval p.text store) := by
  have he := h.expr hcode htype hcount hagree
  generalize e.eval p.text store = x at he ⊢
  cases he with
  | fault f hR => exact .fault f hR
  | value m r hn hr hlive =>
    by_cases hzero : r.integer = 0
    · obtain ⟨k, hm, hlive⟩ := hlive.jump hi (if_pos hzero)
      exact .fail (hr.truth.mp hzero) k (by omega) hlive
    · obtain ⟨k, hm, hlive⟩ := hlive.ok hi (if_neg hzero)
      refine .pass ?_ k (by omega) hlive
      rw [← Bool.not_eq_false]
      exact fun hv => hzero (hr.truth.mpr hv)

/-! ### Loops -/

/-- The end of a statement: where the run goes on, or how it stops. -/
inductive Reaches (p : Executable) (vars : List Variable) (R : Finish) (n : Nat)
    (stack : List RuntimeValue) (c : Config) (next again exit : Nat) : Signal → Prop
  | normal (h : Goes p vars R n stack c next) : Reaches p vars R n stack c next again exit .normal
  | breaks (h : Goes p vars R n stack c exit) : Reaches p vars R n stack c next again exit .breaks
  | continues (h : Goes p vars R n stack c again) :
      Reaches p vars R n stack c next again exit .continues
  | fault (f : Fault) (hR : R = .stopped f c.output) :
      Reaches p vars R n stack c next again exit (.fault f)

private theorem Goes.mono {m pc : Nat} (h : Goes p vars R m stack c pc) (hmn : m ≤ n) :
    Goes p vars R n stack c pc := by
  obtain ⟨k, values, hk, hagree, hlive⟩ := h
  exact ⟨k, values, hk.trans hmn, hagree, hlive⟩

private theorem Reaches.mono {m next again exit : Nat}
    (h : Reaches p vars R m stack c next again exit signal) (hmn : m ≤ n) :
    Reaches p vars R n stack c next again exit signal := by
  cases h with
  | normal h => exact .normal (h.mono hmn)
  | breaks h => exact .breaks (h.mono hmn)
  | continues h => exact .continues (h.mono hmn)
  | fault f hR => exact .fault f hR

private theorem rounds_next {body : Config → Option (Signal × Config)} (htest : test c = .ok v)
    (htruth : v.truth = true) (hbody : body c = some (signal, c'))
    (hsignal : signal = .normal ∨ signal = .continues) : rounds test increment body (fuel + 1) c =
      orFault c' (increment c') fun c => rounds test increment body fuel c := by
  simp only [rounds, htest, orFault, htruth, if_pos, hbody]
  obtain rfl | rfl := hsignal <;> rfl

private theorem rounds_goes (test : Config → Except Fault Value) (increment : Config → Except Fault Config)
    (body : Nat → Config → Option (Signal × Config)) {before start step last : Nat}
    (again exit : Nat) (hmono : ∀ fuel more c ending, fuel ≤ more → body fuel c = some ending →
      body more c = some ending) (htest : ∀ n c, Goes p vars R n stack c before →
      (∃ f, test c = .error f ∧ R = .stopped f c.output) ∨
      ∃ v m, test c = .ok v ∧ m < n ∧ ((v.truth = true ∧ Goes p vars R m stack c start) ∨
        (v.truth = false ∧ Goes p vars R m stack c last)))
    (hbody : ∀ n c, Goes p vars R n stack c start → ∃ fuel signal c',
      body fuel c = some (signal, c') ∧
      ((signal = .normal ∨ signal = .continues) ∧ Goes p vars R n stack c' step ∨
        signal = .breaks ∧ Goes p vars R n stack c' last ∨
        ∃ f, signal = .fault f ∧ R = .stopped f c'.output))
    (hincrement : ∀ n c, Goes p vars R n stack c step →
      Settles p vars R n stack c before (increment c)) (n : Nat) (c : Config)
    (h : Goes p vars R n stack c before) : ∃ fuel signal c',
      rounds test increment (body fuel) fuel c = some (signal, c') ∧
      Reaches p vars R n stack c' last again exit signal := by
  induction n using Nat.strong_induction_on generalizing c with
  | _ n ih =>
    obtain ⟨f, hf, hR⟩ | ⟨v, m, hv, hm, ⟨htruth, hgoes⟩ | ⟨htruth, hgoes⟩⟩ := htest n c h
    · refine ⟨1, .fault f, c, ?_, .fault f hR⟩
      simp only [rounds, hf, orFault]
    · obtain ⟨fuel, signal, c', hrun, ⟨hsignal, hstep⟩ | ⟨rfl, hlast⟩ | ⟨f, rfl, hR⟩⟩ :=
        hbody m c hgoes
      · have hsettles := hincrement m c' hstep
        cases hinc : increment c' with
        | error f =>
          rw [hinc] at hsettles
          cases hsettles with
          | fault _ hR =>
            refine ⟨fuel + 1, .fault f, c', ?_, .fault f hR⟩
            rw [rounds_next hv htruth (hmono _ _ c _ (Nat.le_succ fuel) hrun) hsignal, hinc]
            rfl
        | ok c'' =>
          rw [hinc] at hsettles
          cases hsettles with
          | ok hbefore =>
            obtain ⟨more, signal', d, hrest, hend⟩ := ih m hm c'' hbefore
            refine ⟨max fuel more + 1, signal', d, ?_, ?_⟩
            · rw [rounds_next hv htruth (hmono fuel _ c _ (by omega) hrun) hsignal, hinc]
              exact rounds_mono (fun c ending => hmono more _ c ending (by omega)) (by omega) hrest
            · exact hend.mono hm.le
      · refine ⟨fuel + 1, .normal, c', ?_, .normal (hlast.mono hm.le)⟩
        simp only [rounds, hv, orFault, htruth, if_pos, hmono _ _ c _ (Nat.le_succ fuel) hrun]
      · refine ⟨fuel + 1, .fault f, c', ?_, .fault f hR⟩
        simp only [rounds, hv, orFault, htruth, if_pos, hmono _ _ c _ (Nat.le_succ fuel) hrun]
    · refine ⟨1, .normal, c, ?_, .normal (hgoes.mono hm.le)⟩
      simp [rounds, hv, orFault, htruth]

/-! ### Statements -/

section

variable {p : Executable} {vars : List Variable} {R : Finish} {stack : List RuntimeValue}
  {c : Config} {n base again exit : Nat}

private theorem Goes.jump {target : Nat} (h : Goes p vars R n stack c base)
    (hi : p.code[base]? = some ⟨.jump, target⟩) : Goes p vars R n stack c target := by
  obtain ⟨m, values, hm, hagree, hlive⟩ := h
  obtain ⟨k, hk, hlive⟩ := hlive.jump hi rfl
  exact ⟨k, values, by omega, hagree, hlive⟩

private theorem Goes.assignment {a : Assignment} (hcount : p.variableCount = vars.length)
    (h : Goes p vars R n stack c base) (hcode : SegmentAt p.code base (a.code (slotIn vars)))
    (htyped : a.Typed (typesIn vars)) :
    Settles p vars R n stack c (base + a.size) (a.exec p.text c) := by
  obtain ⟨m, values, hm, hagree, hlive⟩ := h
  have hsettles := hlive.assignment hcode htyped hcount hagree rfl
  generalize a.exec p.text c = x at hsettles ⊢
  cases hsettles with
  | ok h => exact .ok (h.mono hm)
  | fault f hR => exact .fault f hR

private theorem Settles.goOn {x : Except Fault Config} {later : Nat} (h : Settles p vars R n stack c base x)
    (hgo : ∀ c, Goes p vars R n stack c base → Goes p vars R n stack c later) :
    Settles p vars R n stack c later x := by
  cases h with
  | ok h => exact .ok (hgo _ h)
  | fault f hR => exact .fault f hR

private theorem Goes.condition {e : Expr} {type : ValueType} {target : Nat}
    (hcount : p.variableCount = vars.length) (h : Goes p vars R n stack c base)
    (hcode : SegmentAt p.code base (e.code (slotIn vars)))
    (hi : p.code[base + e.size]? = some ⟨.jumpIfFalse, target⟩)
    (htype : e.type (typesIn vars) = some type) :
    (∃ f, e.eval p.text c.store = .error f ∧ R = .stopped f c.output) ∨
      ∃ v m, e.eval p.text c.store = .ok v ∧ m < n ∧
        ((v.truth = true ∧ Goes p vars R m stack c (base + e.size + 1)) ∨
          (v.truth = false ∧ Goes p vars R m stack c target)) := by
  obtain ⟨m, values, hm, hagree, hlive⟩ := h
  have htests := hlive.condition hcode hi htype hcount hagree
  generalize e.eval p.text c.store = x at htests ⊢
  cases htests with
  | fault f hR => exact .inl ⟨f, rfl, hR⟩
  | pass hv k hk hlive =>
    exact .inr ⟨_, k, rfl, by omega, .inl ⟨hv, k, values, le_rfl, hagree, hlive⟩⟩
  | fail hv k hk hlive =>
    exact .inr ⟨_, k, rfl, by omega, .inr ⟨hv, k, values, le_rfl, hagree, hlive⟩⟩

private theorem Goes.print {e : Expr} {type : ValueType} (hcount : p.variableCount = vars.length)
    (h : Goes p vars R n stack c base)
    (hcode : SegmentAt p.code base (e.code (slotIn vars) ++ [⟨.print, 0⟩]))
    (htype : e.type (typesIn vars) = some type) :
    (∃ f, e.eval p.text c.store = .error f ∧ R = .stopped f c.output) ∨
      ∃ v, e.eval p.text c.store = .ok v ∧ Goes p vars R n stack
        { c with output := c.output ++ v.shown ++ [10] } (base + (e.size + 1)) := by
  obtain ⟨m, values, hm, hagree, hlive⟩ := h
  have he := hlive.expr hcode.left htype hcount hagree
  have hi := hcode.right.head
  rw [Expr.length_code] at hi
  generalize e.eval p.text c.store = x at he ⊢
  cases he with
  | fault f hR => exact .inl ⟨f, rfl, hR⟩
  | value k r hk hr hlive =>
    obtain ⟨l, hl, hlive⟩ := hlive.ok hi rfl
    refine .inr ⟨_, rfl, l, values, by omega, hagree, ?_⟩
    rw [List.append_assoc, ← printed_eq hr]
    exact hlive

/-- The evaluation of a statement ends, and the run goes on where it says. -/
def Simulates (p : Executable) (vars : List Variable) (R : Finish) (n : Nat)
    (stack : List RuntimeValue) (c : Config) (next again exit : Nat) (stmt : Stmt) : Prop :=
  ∃ fuel signal c', stmt.exec p.text fuel c = some (signal, c') ∧
    Reaches p vars R n stack c' next again exit signal

namespace Simulates

variable {next : Nat} {stmt first rest : Stmt}

private theorem mono {m : Nat} (h : Simulates p vars R m stack c next again exit stmt) (hmn : m ≤ n) :
    Simulates p vars R n stack c next again exit stmt := by
  obtain ⟨fuel, signal, c', hrun, hreaches⟩ := h
  exact ⟨fuel, signal, c', hrun, hreaches.mono hmn⟩

private theorem seq {middle : Nat} (hfirst : Simulates p vars R n stack c middle again exit first)
    (hrest : ∀ c, Goes p vars R n stack c middle →
      Simulates p vars R n stack c next again exit rest) :
    Simulates p vars R n stack c next again exit (.seq first rest) := by
  obtain ⟨fuel, signal, c', hrun, hreaches⟩ := hfirst
  cases hreaches with
  | normal h =>
    obtain ⟨more, signal, d, hrun', hreaches⟩ := hrest c' h
    refine ⟨max fuel more, signal, d, ?_, hreaches⟩
    simp only [Stmt.exec, first.exec_mono p.text (Nat.le_max_left fuel more) hrun]
    exact rest.exec_mono p.text (Nat.le_max_right fuel more) hrun'
  | breaks h => exact ⟨fuel, .breaks, c', by simp only [Stmt.exec, hrun], .breaks h⟩
  | continues h => exact ⟨fuel, .continues, c', by simp only [Stmt.exec, hrun], .continues h⟩
  | fault f hR => exact ⟨fuel, .fault f, c', by simp only [Stmt.exec, hrun], .fault f hR⟩

private theorem congr {c' : Config} (h : Simulates p vars R n stack c' next again exit first)
    (hexec : ∀ fuel, stmt.exec p.text fuel c = first.exec p.text fuel c') :
    Simulates p vars R n stack c next again exit stmt := by
  obtain ⟨fuel, signal, d, hrun, hreaches⟩ := h
  exact ⟨fuel, signal, d, (hexec fuel).trans hrun, hreaches⟩

private theorem goOn {later : Nat} (h : Simulates p vars R n stack c next again exit stmt)
    (hgo : ∀ c, Goes p vars R n stack c next → Goes p vars R n stack c later) :
    Simulates p vars R n stack c later again exit stmt := by
  obtain ⟨fuel, signal, c', hrun, hreaches⟩ := h
  refine ⟨fuel, signal, c', hrun, ?_⟩
  cases hreaches with
  | normal h => exact .normal (hgo c' h)
  | breaks h => exact .breaks h
  | continues h => exact .continues h
  | fault f hR => exact .fault f hR

private theorem body {step : Nat} (h : Simulates p vars R n stack c next step exit stmt)
    (hi : p.code[next]? = some ⟨.jump, step⟩) : ∃ fuel signal c',
      stmt.exec p.text fuel c = some (signal, c') ∧
      ((signal = .normal ∨ signal = .continues) ∧ Goes p vars R n stack c' step ∨
        signal = .breaks ∧ Goes p vars R n stack c' exit ∨
        ∃ f, signal = .fault f ∧ R = .stopped f c'.output) := by
  obtain ⟨fuel, signal, c', hrun, hreaches⟩ := h
  refine ⟨fuel, signal, c', hrun, ?_⟩
  cases hreaches with
  | normal h => exact .inl ⟨.inl rfl, h.jump hi⟩
  | breaks h => exact .inr (.inl ⟨rfl, h⟩)
  | continues h => exact .inl ⟨.inr rfl, h⟩
  | fault f hR => exact .inr (.inr ⟨f, rfl, hR⟩)

end Simulates

private theorem Goes.stmt {stmt : Stmt} {inLoop : Bool} (hcount : p.variableCount = vars.length)
    (h : Goes p vars R n stack c base)
    (hcode : SegmentAt p.code base (stmt.code (slotIn vars) again exit base))
    (htyped : stmt.Typed (typesIn vars) inLoop) :
    Simulates p vars R n stack c (base + stmt.size) again exit stmt := by
  induction stmt generalizing n c base again exit inLoop with
  | skip => exact ⟨0, .normal, c, rfl, .normal h⟩
  | seq first rest ihf ihr =>
    have hrest := hcode.right
    rw [Stmt.length_code] at hrest
    refine (ihf h hcode.left htyped.1).seq fun c h => ?_
    rw [Stmt.size, ← Nat.add_assoc]
    exact ihr h hrest htyped.2
  | assignment a =>
    have hsettles := h.assignment hcount hcode htyped
    cases hexec : a.exec p.text c with
    | error f =>
      rw [hexec] at hsettles
      cases hsettles with
      | fault _ hR => exact ⟨0, .fault f, c, by simp only [Stmt.exec, hexec, orFault], .fault f hR⟩
    | ok c' =>
      rw [hexec] at hsettles
      cases hsettles with
      | ok h => exact ⟨0, .normal, c', by simp only [Stmt.exec, hexec, orFault], .normal h⟩
  | print e =>
    obtain ⟨type, htype⟩ := htyped
    obtain ⟨f, hf, hR⟩ | ⟨v, hv, h⟩ := h.print hcount hcode htype
    · exact ⟨0, .fault f, c, by simp only [Stmt.exec, hf, orFault], .fault f hR⟩
    · exact ⟨0, .normal, _, by simp only [Stmt.exec, hv, orFault], .normal h⟩
  | ifThen condition body ih =>
    have hi := hcode.right.head
    have hbody := hcode.right.tail
    rw [Expr.length_code] at hi hbody
    rw [Stmt.size, ← Nat.add_assoc, ← Nat.add_assoc]
    obtain ⟨f, hf, hR⟩ | ⟨v, m, hv, hm, ⟨htruth, h⟩ | ⟨htruth, h⟩⟩ :=
      h.condition hcount hcode.left hi htyped.1
    · exact ⟨0, .fault f, c, by simp only [Stmt.exec, hf, orFault], .fault f hR⟩
    · refine ((ih h hbody htyped.2).mono hm.le).congr fun fuel => ?_
      simp [Stmt.exec, hv, orFault, htruth]
    · exact ⟨0, .normal, c, by simp [Stmt.exec, hv, orFault, htruth], .normal (h.mono hm.le)⟩
  | ifElse condition body other ihb iho =>
    obtain ⟨hcondition, hbody, hsecond⟩ := hcode.branches
    have hi := hcondition.right.head
    have hjump := hsecond.head
    have hother := hsecond.tail
    rw [Expr.length_code] at hi hbody hjump hother
    rw [Stmt.length_code] at hjump hother
    rw [← Nat.cast_add] at hjump
    simp only [Stmt.size, ← Nat.add_assoc]
    obtain ⟨f, hf, hR⟩ | ⟨v, m, hv, hm, ⟨htruth, h⟩ | ⟨htruth, h⟩⟩ :=
      h.condition hcount hcode.left.left hi htyped.1
    · exact ⟨0, .fault f, c, by simp only [Stmt.exec, hf, orFault], .fault f hR⟩
    · refine (((ihb h hbody htyped.2.1).mono hm.le).goOn fun c h => h.jump hjump).congr fun fuel => ?_
      simp [Stmt.exec, hv, orFault, htruth]
    · refine ((iho h hother htyped.2.2).mono hm.le).congr fun fuel => ?_
      simp [Stmt.exec, hv, orFault, htruth]
  | whileDo condition body ih =>
    obtain ⟨hcondition, hbody, hlast⟩ := hcode.branches
    have hi := hcondition.right.head
    have hjump := hlast.head
    rw [Expr.length_code] at hi hbody hjump
    rw [Stmt.length_code] at hjump
    simp only [Stmt.size, ← Nat.add_assoc]
    exact rounds_goes (fun c => condition.eval p.text c.store) .ok (fun fuel => body.exec p.text fuel)
      again exit (fun _ _ _ _ hle => body.exec_mono p.text hle)
      (fun n c h => h.condition hcount hcode.left.left hi htyped.1)
      (fun n c h => (ih h hbody htyped.2).body hjump) (fun n c h => .ok h) n c h
  | forDo initial condition increment body ih =>
    have htest := hcode.left.left.left.left.right
    have hi := hcode.left.left.left.right.head
    have henter := hcode.left.left.left.right.tail.head
    have hstep := hcode.left.left.right
    have hback := hcode.left.right.head
    have hbody := hcode.left.right.tail
    have hjump := hcode.right.head
    simp only [List.length_append, List.length_cons, List.length_nil, Expr.length_code,
      Assignment.length_code, Stmt.length_code, ← Nat.add_assoc, Nat.zero_add]
      at htest hi henter hstep hback hbody hjump
    rw [Nat.add_right_comm _ body.size 1] at hjump
    simp only [Stmt.size, ← Nat.add_assoc]
    have hsettles := h.assignment hcount hcode.left.left.left.left.left htyped.1
    cases hinitial : initial.exec p.text c with
    | error f =>
      rw [hinitial] at hsettles
      cases hsettles with
      | fault _ hR =>
        exact ⟨0, .fault f, c, by simp only [Stmt.exec, hinitial, orFault], .fault f hR⟩
    | ok c' =>
      rw [hinitial] at hsettles
      cases hsettles with
      | ok h =>
        obtain ⟨fuel, signal, d, hrun, hreaches⟩ := rounds_goes
          (fun c => condition.eval p.text c.store) (increment.exec p.text)
          (fun fuel => body.exec p.text fuel) again exit
          (fun _ _ _ _ hle => body.exec_mono p.text hle)
          (fun n c h => (h.condition hcount htest hi htyped.2.1).imp_right
            (Exists.imp fun _ => Exists.imp fun _ h =>
              ⟨h.1, h.2.1, h.2.2.imp_left fun h => ⟨h.1, h.2.jump henter⟩⟩))
          (fun n c h => (ih h hbody htyped.2.2.2).body hjump)
          (fun n c h => (h.assignment hcount hstep htyped.2.2.1).goOn fun c h => h.jump hback) n c' h
        exact ⟨fuel, signal, d, by simpa only [Stmt.exec, hinitial, orFault] using hrun, hreaches⟩
  | breakLoop => exact ⟨0, .breaks, c, rfl, .breaks (h.jump hcode.head)⟩
  | continueLoop => exact ⟨0, .continues, c, rfl, .continues (h.jump hcode.head)⟩

end

/-! ### Programs -/

private theorem rounds_signal {body : Config → Option (Signal × Config)}
    (h : rounds test increment body fuel c = some (signal, c')) :
    signal = .normal ∨ ∃ f, signal = .fault f := by
  induction fuel generalizing c with
  | zero => cases h
  | succ fuel ih =>
    obtain ⟨f, hf⟩ | ⟨v, hv⟩ := orFault_eq_some h
    · cases hf
      exact .inr ⟨f, rfl⟩
    · split at hv
      · split at hv
        · cases hv
        · cases hv
          exact .inr ⟨_, rfl⟩
        · cases hv
          exact .inl rfl
        · obtain ⟨f, hf⟩ | ⟨d, hd⟩ := orFault_eq_some hv
          · cases hf
            exact .inr ⟨f, rfl⟩
          · exact ih hd
      · cases hv
        exact .inl rfl

private theorem Stmt.exec_signal {types : Bytes → Option ValueType} {p : Stmt}
    (htyped : p.Typed types false) (h : p.exec text fuel c = some (signal, c')) :
    signal = .normal ∨ ∃ f, signal = .fault f := by
  induction p generalizing c c' signal with
  | skip => cases h; exact .inl rfl
  | breakLoop | continueLoop => exact absurd htyped nofun
  | seq first rest ihf ihr =>
    rw [Stmt.exec] at h
    split at h
    · exact ihr htyped.2 h
    · exact ihf htyped.1 h
  | assignment | print =>
    obtain ⟨f, hf⟩ | ⟨d, hd⟩ := orFault_eq_some h
    · cases hf; exact .inr ⟨f, rfl⟩
    · cases hd; exact .inl rfl
  | ifThen condition body ih =>
    obtain ⟨f, hf⟩ | ⟨v, hv⟩ := orFault_eq_some h
    · cases hf; exact .inr ⟨f, rfl⟩
    · split at hv
      · exact ih htyped.2 hv
      · cases hv; exact .inl rfl
  | ifElse condition body other ihb iho =>
    obtain ⟨f, hf⟩ | ⟨v, hv⟩ := orFault_eq_some h
    · cases hf; exact .inr ⟨f, rfl⟩
    · split at hv
      · exact ihb htyped.2.1 hv
      · exact iho htyped.2.2 hv
  | whileDo condition body ih => exact rounds_signal h
  | forDo initial condition increment body ih =>
    obtain ⟨f, hf⟩ | ⟨d, hd⟩ := orFault_eq_some h
    · cases hf; exact .inr ⟨f, rfl⟩
    · exact rounds_signal hd

/-- The evaluation of a program ends in this way, with this output, and in no other one. -/
structure Stmt.Ends (text : Nat → Bytes) (p : Stmt) (signal : Signal) (output : Bytes) :
    Prop where
  ends : ∃ fuel c, p.exec text fuel .start = some (signal, c) ∧ c.output = output
  only : ∀ fuel ending, p.exec text fuel .start = some ending →
    ending.1 = signal ∧ ending.2.output = output

private theorem Stmt.Ends.of_exec {p : Stmt} (h : p.exec text fuel .start = some (signal, c)) :
    p.Ends text signal c.output := by
  refine ⟨⟨fuel, c, h, rfl⟩, fun more ending hmore => ?_⟩
  have hfirst := p.exec_mono text (Nat.le_max_left fuel more) h
  have hsecond := p.exec_mono text (Nat.le_max_right fuel more) hmore
  obtain rfl := Option.some.inj (hfirst.symm.trans hsecond)
  exact ⟨rfl, rfl⟩

private theorem Built.run_regular {source : Bytes} {tokens : List Token} {ast : Stmt}
    (h : Built source p tokens vars ast) (hregular : (run p).Regular) :
    ∃ fuel signal c, ast.exec p.text fuel .start = some (signal, c) ∧
      ((signal = .normal ∧ run p = .completed c.output) ∨
        ∃ f, signal = .fault f ∧ run p = .stopped f c.output) := by
  have hstart : Goes p vars (run p) maxSteps [] .start 0 :=
    ⟨maxSteps, _, le_rfl, fun _ _ _ => ⟨rfl, rfl, nofun⟩, rfl, hregular⟩
  have hcode : SegmentAt p.code 0 (ast.code (slotIn vars) 0 0 0) := h.code ▸ SegmentAt.self _
  obtain ⟨fuel, signal, c, hexec, hreaches⟩ := hstart.stmt h.variableCount hcode h.typed
  refine ⟨fuel, signal, c, hexec, ?_⟩
  obtain rfl | ⟨f, rfl⟩ := ast.exec_signal h.typed hexec
  · cases hreaches with
    | normal hgoes =>
      obtain ⟨m, values, -, -, hlive⟩ := hgoes
      have hlen : p.code.length ≤ 0 + ast.size := by rw [h.code, Stmt.length_code]; omega
      exact .inl ⟨rfl, hlive.run.symm.trans (by cases m <;> simp only [runFrom, hlen, if_true])⟩
  · cases hreaches with
    | fault _ hR => exact .inr ⟨f, rfl, hR⟩

/-- Whatever source is accepted, a run to the end of the code writes what the evaluation of its
statements writes, and a run that stops at a division by zero has written what the evaluation had
written then. -/
theorem run_evaluates {source : Bytes} {p : Executable} {tokens : List Token}
    {engine : Engine} (h : build source = .ok (.ok (p, tokens, engine))) :
    ∃ ast, parse source tokens = some ast ∧
      (∀ output, run p = .completed output →
        ast.Ends (fun i => tokenText source (tokenAt tokens i)) .normal output) ∧
      (∀ fault output, fault ≠ .invalidState → run p = .stopped fault output →
        ast.Ends (fun i => tokenText source (tokenAt tokens i)) (.fault fault) output) := by
  obtain ⟨ast, hbuilt⟩ := build_accepts h
  refine ⟨ast, hbuilt.parsed, ?_, ?_⟩
  · intro output hrun
    obtain ⟨fuel, signal, c, hexec, ⟨rfl, hR⟩ | ⟨f, -, hR⟩⟩ :=
      hbuilt.run_regular (by rw [hrun]; trivial)
    · obtain rfl := Finish.completed.inj (hrun.symm.trans hR)
      rw [hbuilt.text] at hexec
      exact .of_exec hexec
    · exact absurd (hrun.symm.trans hR) nofun
  · intro fault output hfault hrun
    obtain ⟨fuel, signal, c, hexec, ⟨-, hR⟩ | ⟨f, rfl, hR⟩⟩ :=
      hbuilt.run_regular (by rw [hrun]; exact hfault)
    · exact absurd (hrun.symm.trans hR) nofun
    · obtain ⟨rfl, rfl⟩ := Finish.stopped.inj (hrun.symm.trans hR)
      rw [hbuilt.text] at hexec
      exact .of_exec hexec

/-- The code of a source, if it is accepted. -/
def built (source : Bytes) : Option (Executable × List Token × Engine) :=
  match build source with
  | .ok (.ok result) => some result
  | _ => none

/-- A source with code is accepted. -/
theorem build_of_built {source : Bytes} {result : Executable × List Token × Engine}
    (h : built source = some result) : build source = .ok (.ok result) := by
  unfold built at h
  split at h
  · next hbuild => rw [hbuild, Option.some.inj h]
  · cases h

/-- A loop with a compound assignment, a `continue` and a `break`. -/
def countSource : Bytes :=
  ascii ("for (int i = 0; i < 9; i += 1) \x7b if (i == 1) \x7b continue; \x7d " ++
    "if (i == 3) \x7b break; \x7d print(i); \x7d").toList

/-- A loop that prints 0 and 2. -/
theorem run_evaluates_count : ∃ p tokens engine ast,
    build countSource = .ok (.ok (p, tokens, engine)) ∧ run p = .completed [48, 10, 50, 10] ∧
      parse countSource tokens = some ast ∧
      ast.Ends (fun i => tokenText countSource (tokenAt tokens i)) .normal [48, 10, 50, 10] := by
  have hrun : (built countSource).map (fun r => run r.1) = some (.completed [48, 10, 50, 10]) := by
    decide +kernel
  obtain ⟨⟨p, tokens, engine⟩, hbuilt, hout⟩ := Option.map_eq_some_iff.mp hrun
  obtain ⟨ast, hparse, hends, -⟩ := run_evaluates (build_of_built hbuilt)
  exact ⟨p, tokens, engine, ast, build_of_built hbuilt, hout, hparse, hends _ hout⟩

end NasuaOS.SuaScript
