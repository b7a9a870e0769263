import NasuaOS.Base.Segments
import NasuaOS.SuaScript.Statements

/-!
# Types of the stack

At each position of the code the compiler knows which types the values on the stack have: between
statements there is none. The shapes of a tree are given as its code is. Each instruction takes the
shape before it to the shapes at the positions that it goes to; this is said once for each kind of
instruction, and then of every position of an accepted program.
-/

namespace NasuaOS.SuaScript

open Base List

section

variable (types : Bytes → Option ValueType)

/-- The type of an expression that has one. -/
def Expr.typeD (e : Expr) : ValueType := (e.type types).getD .invalid

/-- The types on the stack before each instruction of an expression, the top first. -/
def Expr.shapes (stack : List ValueType) : Expr → List (List ValueType)
  | .number _ | .string _ | .boolean _ | .var _ => [stack]
  | .negate e | .not e => e.shapes stack ++ [e.typeD types :: stack]
  | .binary _ left right =>
    left.shapes stack ++ right.shapes (left.typeD types :: stack) ++
      [right.typeD types :: left.typeD types :: stack]

/-- The shapes of an assignment. -/
def Assignment.shapes (a : Assignment) : List (List ValueType) :=
  a.value.shapes types [] ++ [[a.value.typeD types]]

/-- The shapes of a statement. -/
def Stmt.shapes : Stmt → List (List ValueType)
  | .skip => []
  | .seq first rest => first.shapes ++ rest.shapes
  | .assignment a => a.shapes types
  | .print e => e.shapes types [] ++ [[e.typeD types]]
  | .ifThen c body => c.shapes types [] ++ [c.typeD types] :: body.shapes
  | .ifElse c body other =>
    c.shapes types [] ++ [c.typeD types] :: body.shapes ++ [] :: other.shapes
  | .whileDo c body => c.shapes types [] ++ [c.typeD types] :: body.shapes ++ [[]]
  | .forDo initial c increment body =>
    initial.shapes types ++ c.shapes types [] ++ [[c.typeD types], []] ++ increment.shapes types ++
      [] :: body.shapes ++ [[]]
  | .breakLoop | .continueLoop => [[]]

@[simp] private theorem Expr.length_shapes (stack : List ValueType) (e : Expr) :
    (e.shapes types stack).length = e.size := by
  induction e generalizing stack with
  | number | string | boolean | var => rfl
  | negate e ih | not e ih => simp [shapes, size, ih]
  | binary op left right ihl ihr => simp [shapes, size, ihl, ihr, Nat.add_assoc]

@[simp] private theorem Assignment.length_shapes (a : Assignment) : (a.shapes types).length = a.size := by
  simp [shapes, size_eq]

/-- There is a shape for each instruction. -/
@[simp] theorem Stmt.length_shapes (s : Stmt) : (s.shapes types).length = s.size := by
  induction s with
  | skip | breakLoop | continueLoop => rfl
  | seq first rest ihf ihr => simp [shapes, size, ihf, ihr]
  | assignment | print => simp [shapes, size]
  | ifThen c body ih | whileDo c body ih | forDo initial c increment body ih =>
    simp [shapes, size, ih]; omega
  | ifElse c body other ihb iho => simp [shapes, size, ihb, iho]; omega

end

/-! ### Room -/

/-- The slots of the stack that an expression needs. -/
def Expr.need : Expr → Nat
  | .number _ | .string _ | .boolean _ | .var _ => 1
  | .negate e | .not e => e.need
  | .binary _ left right => max left.need (right.need + 1)

/-- The expressions of a statement; `x op= e` has `x op e`. -/
def Stmt.exprs : Stmt → List Expr
  | .skip | .breakLoop | .continueLoop => []
  | .seq first rest => first.exprs ++ rest.exprs
  | .assignment a => [a.value]
  | .print e => [e]
  | .ifThen c body | .whileDo c body => c :: body.exprs
  | .ifElse c body other => c :: body.exprs ++ other.exprs
  | .forDo initial c increment body => initial.value :: c :: increment.value :: body.exprs

/-! ### Instructions -/

/-- The shapes at the positions of a program; there is nothing on the stack at its end. -/
def shapeAt (shapes : List (List ValueType)) (pc : Nat) : List ValueType := shapes.getD pc []

/-- An instruction takes the shape before it to those at the positions that it goes to. -/
inductive Flows (declared : Nat → Option ValueType) (room last : Nat)
    (shape : Nat → List ValueType) (pc : Nat) : Instruction → Prop
  | pushInteger (n : Int) (hroom : (shape pc).length < room)
      (hnext : shape (pc + 1) = .integer :: shape pc) :
      Flows declared room last shape pc ⟨.pushInteger, n⟩
  | pushBoolean (n : Int) (hroom : (shape pc).length < room)
      (hnext : shape (pc + 1) = .boolean :: shape pc) :
      Flows declared room last shape pc ⟨.pushBoolean, n⟩
  | pushString (n : Int) (hroom : (shape pc).length < room)
      (hnext : shape (pc + 1) = .string :: shape pc) :
      Flows declared room last shape pc ⟨.pushString, n⟩
  | load (slot : Nat) (type : ValueType) (hslot : declared slot = some type)
      (hroom : (shape pc).length < room) (hnext : shape (pc + 1) = type :: shape pc) :
      Flows declared room last shape pc ⟨.load, slot⟩
  | store (slot : Nat) (type : ValueType) (hslot : declared slot = some type)
      (hshape : shape pc = type :: shape (pc + 1)) :
      Flows declared room last shape pc ⟨.store, slot⟩
  | negate (stack : List ValueType) (hshape : shape pc = .integer :: stack)
      (hnext : shape (pc + 1) = .integer :: stack) : Flows declared room last shape pc ⟨.negate, 0⟩
  | not (stack : List ValueType) (hshape : shape pc = .boolean :: stack)
      (hnext : shape (pc + 1) = .boolean :: stack) : Flows declared room last shape pc ⟨.not, 0⟩
  | binary (op : Binary) (l r type : ValueType) (stack : List ValueType)
      (hshape : shape pc = r :: l :: stack) (htype : op.type l r = some type)
      (hnext : shape (pc + 1) = type :: stack) : Flows declared room last shape pc ⟨op.op, 0⟩
  | print (type : ValueType) (hshape : shape pc = type :: shape (pc + 1)) :
      Flows declared room last shape pc ⟨.print, 0⟩
  | jump (target : Nat) (hlast : target ≤ last) (hshape : shape target = shape pc) :
      Flows declared room last shape pc ⟨.jump, target⟩
  | jumpIfFalse (target : Nat) (hlast : target ≤ last)
      (hshape : shape pc = .boolean :: shape (pc + 1)) (htarget : shape target = shape (pc + 1)) :
      Flows declared room last shape pc ⟨.jumpIfFalse, target⟩

/-- All instructions of a piece of code. -/
def FlowsOn (declared : Nat → Option ValueType) (room last : Nat) (shape : Nat → List ValueType)
    (base : Nat) (code : List Instruction) : Prop :=
  ∀ k i, code[k]? = some i → Flows declared room last shape (base + k) i

namespace FlowsOn

variable {declared : Nat → Option ValueType} {room last base : Nat}
  {shape : Nat → List ValueType} {i : Instruction} {front back : List Instruction}

private theorem nil : FlowsOn declared room last shape base [] := nofun

private theorem cons (h : Flows declared room last shape base i)
    (hback : FlowsOn declared room last shape (base + 1) back) :
    FlowsOn declared room last shape base (i :: back) := by
  intro k j hj
  cases k with
  | zero => cases hj; exact h
  | succ k =>
    rw [Nat.add_comm k 1, ← Nat.add_assoc]
    exact hback k j hj

private theorem append (hfront : FlowsOn declared room last shape base front)
    (hback : FlowsOn declared room last shape (base + front.length) back) :
    FlowsOn declared room last shape base (front ++ back) := by
  induction front generalizing base with
  | nil => exact hback
  | cons j front ih =>
    have hfirst : Flows declared room last shape base j := hfront 0 j rfl
    have hrest : FlowsOn declared room last shape (base + 1) front := by
      intro k i hi
      rw [Nat.add_right_comm]
      exact hfront (k + 1) i hi
    refine .cons hfirst (ih hrest ?_)
    rwa [length_cons, Nat.add_comm front.length 1, ← Nat.add_assoc] at hback

end FlowsOn

/-! ### Shapes of programs -/

section

variable {types : Bytes → Option ValueType} {slot : Bytes → Nat}
  {declared : Nat → Option ValueType} {room last base : Nat} {shapes : List (List ValueType)}

variable {rest : List (List ValueType)} {e : Expr} {stack : List ValueType} {p : Stmt}
  {again exit : Nat} {code : List Instruction}

private theorem shapeAt_head {shape : List ValueType} (h : SegmentAt shapes base (shape :: rest)) :
    shapeAt shapes base = shape := by
  rw [shapeAt, getD_eq_getElem?_getD, h.head]
  rfl

private theorem Expr.typeD_eq {type : ValueType} (h : e.type types = some type) :
    e.typeD types = type := by
  rw [Expr.typeD, h]
  rfl

private theorem Expr.shapeAt_start (h : SegmentAt shapes base (e.shapes types stack)) :
    shapeAt shapes base = stack := by
  induction e generalizing stack with
  | number | string | boolean | var => exact shapeAt_head h
  | negate e ih | not e ih => exact ih h.left
  | binary op left right ihl ihr => exact ihl h.left.left

private theorem Expr.shapeAt_next {type : ValueType} (he : e.type types = some type)
    (h : SegmentAt shapes base (e.shapes types stack ++ (e.typeD types :: stack) :: rest)) :
    shapeAt shapes (base + e.size) = type :: stack := by
  have hnext := h.right
  rw [Expr.length_shapes, Expr.typeD_eq he] at hnext
  exact shapeAt_head hnext

private theorem Expr.flows {type : ValueType}
    (hslot : ∀ x type, types x = some type → declared (slot x) = some type)
    (hshape : SegmentAt shapes base (e.shapes types stack))
    (hnext : shapeAt shapes (base + e.size) = type :: stack) (htype : e.type types = some type)
    (hroom : stack.length + e.need ≤ room) :
    FlowsOn declared room last (shapeAt shapes) base (e.code slot) := by
  induction e generalizing base stack type with
  | number n =>
    cases htype
    rw [← shapeAt_head hshape] at hroom hnext
    exact .cons (.pushInteger _ hroom hnext) .nil
  | string token =>
    cases htype
    rw [← shapeAt_head hshape] at hroom hnext
    exact .cons (.pushString _ hroom hnext) .nil
  | boolean b =>
    cases htype
    rw [← shapeAt_head hshape] at hroom hnext
    exact .cons (.pushBoolean _ hroom hnext) .nil
  | var x =>
    rw [← shapeAt_head hshape] at hroom hnext
    exact .cons (.load _ type (hslot x type htype) hroom hnext) .nil
  | negate e ih =>
    obtain ⟨he, rfl⟩ := Expr.type_negate.mp htype
    have hmid := Expr.shapeAt_next he hshape
    refine .append (ih hshape.left hmid he hroom) (.cons ?_ .nil)
    rw [Expr.length_code]
    exact .negate stack hmid hnext
  | not e ih =>
    obtain ⟨he, rfl⟩ := Expr.type_not.mp htype
    have hmid := Expr.shapeAt_next he hshape
    refine .append (ih hshape.left hmid he hroom) (.cons ?_ .nil)
    rw [Expr.length_code]
    exact .not stack hmid hnext
  | binary op left right ihl ihr =>
    obtain ⟨l, r, hl, hr, hop⟩ := Expr.type_binary.mp htype
    have hright := hshape.left.right
    have hlast := hshape.right
    rw [Expr.length_shapes] at hright
    rw [length_append, Expr.length_shapes, Expr.length_shapes, ← Nat.add_assoc] at hlast
    rw [Expr.typeD_eq hl] at hright hlast
    rw [Expr.typeD_eq hr] at hlast
    rw [Expr.size, ← Nat.add_assoc, ← Nat.add_assoc] at hnext
    have hneed : left.need ≤ (Expr.binary op left right).need ∧
        right.need + 1 ≤ (Expr.binary op left right).need := by simp [Expr.need]
    refine .append (.append ?_ ?_) (.cons ?_ .nil)
    · exact ihl hshape.left.left (Expr.shapeAt_start hright) hl (by omega)
    · rw [Expr.length_code]
      exact ihr hright (shapeAt_head hlast) hr (by rw [length_cons]; omega)
    · rw [length_append, Expr.length_code, Expr.length_code, ← Nat.add_assoc]
      exact .binary op l r type stack (shapeAt_head hlast) hop hnext

private theorem Assignment.flows {a : Assignment}
    (hslot : ∀ x type, types x = some type → declared (slot x) = some type)
    (hshape : SegmentAt shapes base (a.shapes types)) (hnext : shapeAt shapes (base + a.size) = [])
    (htyped : a.Typed types) (hroom : a.value.need ≤ room) :
    FlowsOn declared room last (shapeAt shapes) base (a.code slot) := by
  obtain ⟨type, hname, hvalue⟩ := htyped.value
  have hmid := Expr.shapeAt_next hvalue hshape
  rw [a.size_eq, ← Nat.add_assoc] at hnext
  rw [a.code_eq]
  refine .append (Expr.flows hslot hshape.left hmid hvalue (by simpa using hroom)) (.cons ?_ .nil)
  rw [Expr.length_code]
  exact .store _ type (hslot _ _ hname) (by rw [hmid, hnext])

private theorem Assignment.shapeAt_start {a : Assignment} (h : SegmentAt shapes base (a.shapes types)) :
    shapeAt shapes base = [] :=
  Expr.shapeAt_start h.left

/-- A statement starts with nothing on the stack. -/
theorem Stmt.shapeAt_start (h : SegmentAt shapes base (p.shapes types))
    (hnext : shapeAt shapes (base + p.size) = []) : shapeAt shapes base = [] := by
  induction p generalizing base with
  | skip => exact hnext
  | seq first rest ihf ihr =>
    have hrest := h.right
    rw [Stmt.length_shapes] at hrest
    rw [Stmt.size, ← Nat.add_assoc] at hnext
    exact ihf h.left (ihr hrest hnext)
  | assignment a => exact Assignment.shapeAt_start h
  | print e | ifThen c body ih => exact Expr.shapeAt_start h.left
  | ifElse c body other ihb iho | whileDo c body ih => exact Expr.shapeAt_start h.left.left
  | forDo initial c increment body ih => exact Assignment.shapeAt_start h.left.left.left.left.left
  | breakLoop | continueLoop => exact shapeAt_head h

private theorem Expr.length_condition {c : Expr} {body : Stmt} {i : Instruction} {start : Nat} :
    base + (c.code slot ++ i :: body.code slot again exit start).length =
      base + c.size + 1 + body.size := by
  rw [length_append, length_cons, Expr.length_code, Stmt.length_code]
  omega

private theorem Expr.flows_condition {c : Expr} (target : Nat)
    (hslot : ∀ x type, types x = some type → declared (slot x) = some type)
    (hshape : SegmentAt shapes base (c.shapes types [] ++ [c.typeD types] :: rest))
    (hc : c.type types = some .boolean) (hroom : c.need ≤ room) (htarget : target ≤ last)
    (hpass : shapeAt shapes (base + c.size + 1) = []) (hfail : shapeAt shapes target = [])
    (hcode : FlowsOn declared room last (shapeAt shapes) (base + c.size + 1) code) :
    FlowsOn declared room last (shapeAt shapes) base
      (c.code slot ++ ⟨.jumpIfFalse, target⟩ :: code) := by
  have hmid := Expr.shapeAt_next hc hshape
  refine .append (Expr.flows hslot hshape.left hmid hc (by simpa using hroom)) ?_
  rw [Expr.length_code]
  exact .cons (.jumpIfFalse target htarget (by rw [hmid, hpass]) (by rw [hfail, hpass])) hcode

/-- Instructions of a statement. -/
theorem Stmt.flows {inLoop : Bool}
    (hslot : ∀ x type, types x = some type → declared (slot x) = some type)
    (hshape : SegmentAt shapes base (p.shapes types)) (hnext : shapeAt shapes (base + p.size) = [])
    (hlast : base + p.size ≤ last) (htyped : p.Typed types inLoop)
    (hroom : ∀ e ∈ p.exprs, e.need ≤ room)
    (hloop : inLoop = true → (again ≤ last ∧ shapeAt shapes again = []) ∧
      exit ≤ last ∧ shapeAt shapes exit = []) :
    FlowsOn declared room last (shapeAt shapes) base (p.code slot again exit base) := by
  induction p generalizing base again exit inLoop with
  | skip => exact .nil
  | seq first rest ihf ihr =>
    have hrest := hshape.right
    rw [Stmt.length_shapes] at hrest
    rw [Stmt.size, ← Nat.add_assoc] at hnext hlast
    have hmid := Stmt.shapeAt_start hrest hnext
    refine .append ?_ ?_
    · exact ihf hshape.left hmid (by omega) htyped.1
        (fun e he => hroom e (mem_append_left _ he)) hloop
    · rw [Stmt.length_code]
      exact ihr hrest hnext hlast htyped.2 (fun e he => hroom e (mem_append_right _ he)) hloop
  | assignment a =>
    exact Assignment.flows hslot hshape hnext htyped (hroom _ (mem_singleton.mpr rfl))
  | print e =>
    obtain ⟨type, htype⟩ := htyped
    have hmid := Expr.shapeAt_next htype hshape
    have hneed := hroom e (mem_singleton.mpr rfl)
    refine .append (Expr.flows hslot hshape.left hmid htype (by simpa using hneed)) (.cons ?_ .nil)
    rw [Expr.length_code]
    exact .print type (by rw [hmid]; exact congrArg _ hnext.symm)
  | ifThen c body ih =>
    have hbody := hshape.right.tail
    rw [Expr.length_shapes] at hbody
    rw [Stmt.size, ← Nat.add_assoc, ← Nat.add_assoc] at hnext hlast
    have hstart := Stmt.shapeAt_start hbody hnext
    have hflows := ih hbody hnext hlast htyped.2
      (fun e he => hroom e (mem_cons_of_mem _ he)) hloop
    exact Expr.flows_condition _ hslot hshape htyped.1 (hroom c mem_cons_self) hlast hstart
      hnext hflows
  | ifElse c body other ihb iho =>
    obtain ⟨hcondition, hbody, hjump⟩ := hshape.branches
    rw [Expr.length_shapes] at hbody hjump
    rw [Stmt.length_shapes] at hjump
    simp only [Stmt.size, ← Nat.add_assoc] at hnext hlast
    have hsecond := Stmt.shapeAt_start hjump.tail hnext
    have hfirst := Stmt.shapeAt_start hbody (shapeAt_head hjump)
    have hflows := ihb hbody (shapeAt_head hjump) (by omega) htyped.2.1
      (fun e he => hroom e (mem_cons_of_mem _ (mem_append_left _ he))) hloop
    have hflows' := iho hjump.tail hnext hlast htyped.2.2
      (fun e he => hroom e (mem_cons_of_mem _ (mem_append_right _ he))) hloop
    refine .append (Expr.flows_condition _ hslot hcondition htyped.1 (hroom c mem_cons_self)
      (by omega) hfirst hsecond hflows) ?_
    rw [Expr.length_condition]
    exact .cons (.jump _ hlast (by rw [hnext, shapeAt_head hjump])) hflows'
  | whileDo c body ih =>
    obtain ⟨hcondition, hbody, hjump⟩ := hshape.branches
    rw [Expr.length_shapes] at hbody hjump
    rw [Stmt.length_shapes] at hjump
    simp only [Stmt.size, ← Nat.add_assoc] at hnext hlast
    have hbase : shapeAt shapes base = [] := Expr.shapeAt_start hcondition.left
    have hstart := Stmt.shapeAt_start hbody (shapeAt_head hjump)
    have hflows := @ih _ base (base + c.size + 1 + body.size + 1) _ hbody (shapeAt_head hjump)
      (by omega) htyped.2 (fun e he => hroom e (mem_cons_of_mem _ he))
      fun _ => ⟨⟨by omega, hbase⟩, hlast, hnext⟩
    refine .append (Expr.flows_condition _ hslot hcondition htyped.1 (hroom c mem_cons_self)
      hlast hstart hnext hflows) ?_
    rw [Expr.length_condition]
    exact .cons (.jump _ (by omega) (by rw [hbase, shapeAt_head hjump])) .nil
  | forDo initial c increment body ih =>
    have htest := hshape.left.left.left.left.right
    have hbranch := hshape.left.left.left.right
    have henter := hshape.left.left.left.right.tail
    have hstep := hshape.left.left.right
    have hback := hshape.left.right
    have hbody := hshape.left.right.tail
    have hjump := hshape.right
    simp only [length_append, length_cons, length_nil, Expr.length_shapes,
      Assignment.length_shapes, Stmt.length_shapes, ← Nat.add_assoc, Nat.zero_add]
      at htest hbranch henter hstep hback hbody hjump
    rw [Nat.add_right_comm _ body.size 1] at hjump
    simp only [Stmt.size, ← Nat.add_assoc] at hnext hlast
    have hinitial : shapeAt shapes (base + initial.size) = [] := Expr.shapeAt_start htest
    have hfalse := shapeAt_head hbranch
    rw [Expr.typeD_eq htyped.2.1] at hfalse
    have hincrement := Assignment.shapeAt_start hstep
    have hstart := Stmt.shapeAt_start hbody (shapeAt_head hjump)
    have hmem : initial.value.need ≤ room ∧ c.need ≤ room ∧ increment.value.need ≤ room :=
      ⟨hroom _ (by simp [Stmt.exprs]), hroom _ (by simp [Stmt.exprs]),
        hroom _ (by simp [Stmt.exprs])⟩
    have hflows := @ih _ (base + initial.size + c.size + 2)
      (base + initial.size + c.size + 2 + increment.size + 1 + body.size + 1) _ hbody
      (shapeAt_head hjump) (by omega) htyped.2.2.2
      (fun e he => hroom e (by simp [Stmt.exprs, he]))
      fun _ => ⟨⟨by omega, hincrement⟩, hlast, hnext⟩
    refine .append (.append (.append (.append (.append ?_ ?_) ?_) ?_) ?_) ?_
    · exact Assignment.flows hslot hshape.left.left.left.left.left hinitial htyped.1 hmem.1
    · rw [Assignment.length_code]
      exact Expr.flows hslot htest hfalse htyped.2.1 (by simpa using hmem.2.1)
    · rw [length_append, Assignment.length_code, Expr.length_code, ← Nat.add_assoc]
      refine .cons (.jumpIfFalse _ hlast ?_ ?_) (.cons (.jump _ (by omega) ?_) .nil)
      · rw [hfalse, shapeAt_head henter]
      · rw [hnext, shapeAt_head henter]
      · rw [hstart, shapeAt_head henter]
    · simp only [length_append, length_cons, length_nil, Assignment.length_code,
        Expr.length_code, ← Nat.add_assoc, Nat.zero_add]
      exact Assignment.flows hslot hstep (shapeAt_head hback) htyped.2.2.1 hmem.2.2
    · simp only [length_append, length_cons, length_nil, Assignment.length_code,
        Expr.length_code, ← Nat.add_assoc, Nat.zero_add]
      exact .cons (.jump _ (by omega) (by rw [hinitial, shapeAt_head hback])) hflows
    · simp only [length_append, length_cons, length_nil, Assignment.length_code,
        Expr.length_code, Stmt.length_code, ← Nat.add_assoc, Nat.zero_add]
      rw [Nat.add_right_comm _ body.size 1]
      exact .cons (.jump _ (by omega) (by rw [hincrement, shapeAt_head hjump])) .nil
  | breakLoop =>
    have h := hloop htyped
    exact .cons (.jump exit h.2.1 (by rw [h.2.2, shapeAt_head hshape])) .nil
  | continueLoop =>
    have h := hloop htyped
    exact .cons (.jump again h.1.1 (by rw [h.1.2, shapeAt_head hshape])) .nil

/-! ### Boundaries -/

/-- Where statements start and end. -/
def Stmt.boundaries (base : Nat) : Stmt → List Nat
  | .skip => [base]
  | .seq first rest => first.boundaries base ++ rest.boundaries (base + first.size)
  | .assignment a => [base, base + a.size]
  | .print e => [base, base + (e.size + 1)]
  | .ifThen c body => base :: body.boundaries (base + c.size + 1)
  | .ifElse c body other =>
    base :: body.boundaries (base + c.size + 1) ++
      other.boundaries (base + c.size + 1 + body.size + 1)
  | .whileDo c body =>
    base :: body.boundaries (base + c.size + 1) ++ [base + c.size + 1 + body.size + 1]
  | .forDo initial c increment body =>
    let test := base + initial.size
    let step := test + c.size + 2
    let start := step + increment.size + 1
    [base, test, step, step + increment.size] ++ body.boundaries start ++ [start + body.size + 1]
  | .breakLoop | .continueLoop => [base, base + 1]

/-- There is nothing on the stack between statements. -/
theorem Stmt.shapeAt_boundary (hshape : SegmentAt shapes base (p.shapes types))
    (hnext : shapeAt shapes (base + p.size) = []) {pc : Nat} (hpc : pc ∈ p.boundaries base) :
    shapeAt shapes pc = [] := by
  induction p generalizing base with
  | skip =>
    obtain rfl := mem_singleton.mp hpc
    exact hnext
  | seq first rest ihf ihr =>
    have hrest := hshape.right
    rw [Stmt.length_shapes] at hrest
    rw [Stmt.size, ← Nat.add_assoc] at hnext
    obtain hpc | hpc := mem_append.mp hpc
    · exact ihf hshape.left (Stmt.shapeAt_start hrest hnext) hpc
    · exact ihr hrest hnext hpc
  | assignment | print | breakLoop | continueLoop =>
    have hstart := Stmt.shapeAt_start hshape hnext
    simp only [boundaries, mem_cons, not_mem_nil, or_false] at hpc
    obtain rfl | rfl := hpc
    · exact hstart
    · exact hnext
  | ifThen c body ih =>
    have hstart := Stmt.shapeAt_start hshape hnext
    have hbody := hshape.right.tail
    rw [Expr.length_shapes] at hbody
    rw [Stmt.size, ← Nat.add_assoc, ← Nat.add_assoc] at hnext
    obtain rfl | hpc := mem_cons.mp hpc
    · exact hstart
    · exact ih hbody hnext hpc
  | ifElse c body other ihb iho =>
    have hstart := Stmt.shapeAt_start hshape hnext
    obtain ⟨-, hbody, hjump⟩ := hshape.branches
    rw [Expr.length_shapes] at hbody hjump
    rw [Stmt.length_shapes] at hjump
    simp only [Stmt.size, ← Nat.add_assoc] at hnext
    simp only [boundaries, mem_cons, mem_append, cons_append] at hpc
    obtain rfl | hpc | hpc := hpc
    · exact hstart
    · exact ihb hbody (shapeAt_head hjump) hpc
    · exact iho hjump.tail hnext hpc
  | whileDo c body ih =>
    have hstart := Stmt.shapeAt_start hshape hnext
    obtain ⟨-, hbody, hjump⟩ := hshape.branches
    rw [Expr.length_shapes] at hbody hjump
    rw [Stmt.length_shapes] at hjump
    simp only [Stmt.size, ← Nat.add_assoc] at hnext
    simp only [boundaries, mem_cons, mem_append, cons_append, not_mem_nil,
      or_false] at hpc
    obtain rfl | hpc | rfl := hpc
    · exact hstart
    · exact ih hbody (shapeAt_head hjump) hpc
    · exact hnext
  | forDo initial c increment body ih =>
    have hstart := Stmt.shapeAt_start hshape hnext
    have htest := hshape.left.left.left.left.right
    have hstep := hshape.left.left.right
    have hback := hshape.left.right
    have hbody := hshape.left.right.tail
    have hjump := hshape.right
    simp only [length_append, length_cons, length_nil, Expr.length_shapes,
      Assignment.length_shapes, Stmt.length_shapes, ← Nat.add_assoc, Nat.zero_add]
      at htest hstep hback hbody hjump
    rw [Nat.add_right_comm _ body.size 1] at hjump
    simp only [Stmt.size, ← Nat.add_assoc] at hnext
    simp only [boundaries, mem_cons, mem_append, cons_append, nil_append,
      not_mem_nil, or_false] at hpc
    obtain rfl | rfl | rfl | rfl | hpc | rfl := hpc
    · exact hstart
    · exact Expr.shapeAt_start htest
    · exact Assignment.shapeAt_start hstep
    · exact shapeAt_head hback
    · exact ih hbody (shapeAt_head hjump) hpc
    · exact hnext

/-- The jump of each `break`, and the end of the loop around it. -/
def Stmt.exits (base : Nat) : Stmt → List (Nat × Nat)
  | .seq first rest => first.exits base ++ rest.exits (base + first.size)
  | .ifThen c body => body.exits (base + c.size + 1)
  | .ifElse c body other =>
    body.exits (base + c.size + 1) ++ other.exits (base + c.size + 1 + body.size + 1)
  | .whileDo c body =>
    let start := base + c.size + 1
    (body.breaks start).map (·, start + body.size + 1) ++ body.exits start
  | .forDo initial c increment body =>
    let start := base + initial.size + c.size + 2 + increment.size + 1
    (body.breaks start).map (·, start + body.size + 1) ++ body.exits start
  | _ => []

/-- Every `break` goes to the end of the loop around it. -/
theorem Stmt.code_exits (hcode : SegmentAt code base (p.code slot again exit base)) :
    (∀ i ∈ p.breaks base, code[i]? = some ⟨.jump, exit⟩) ∧
      ∀ jump ∈ p.exits base, code[jump.1]? = some ⟨.jump, jump.2⟩ := by
  induction p generalizing base again exit with
  | skip | assignment | print | continueLoop => exact ⟨nofun, nofun⟩
  | seq first rest ihf ihr =>
    have hrest := hcode.right
    rw [Stmt.length_code] at hrest
    exact ⟨forall_mem_append.mpr ⟨(ihf hcode.left).1, (ihr hrest).1⟩,
      forall_mem_append.mpr ⟨(ihf hcode.left).2, (ihr hrest).2⟩⟩
  | ifThen c body ih =>
    have hbody := hcode.right.tail
    rw [Expr.length_code] at hbody
    exact ih hbody
  | ifElse c body other ihb iho =>
    obtain ⟨-, hbody, hsecond⟩ := hcode.branches
    rw [Expr.length_code] at hbody hsecond
    rw [Stmt.length_code] at hsecond
    exact ⟨forall_mem_append.mpr ⟨(ihb hbody).1, (iho hsecond.tail).1⟩,
      forall_mem_append.mpr ⟨(ihb hbody).2, (iho hsecond.tail).2⟩⟩
  | whileDo c body ih =>
    have hbody := hcode.left.right.tail
    rw [Expr.length_code] at hbody
    exact ⟨nofun, forall_mem_append.mpr ⟨forall_mem_map.mpr (ih hbody).1, (ih hbody).2⟩⟩
  | forDo initial c increment body ih =>
    have hbody := hcode.left.right.tail
    simp only [length_append, length_cons, length_nil, Expr.length_code,
      Assignment.length_code, ← Nat.add_assoc, Nat.zero_add] at hbody
    exact ⟨nofun, forall_mem_append.mpr ⟨forall_mem_map.mpr (ih hbody).1, (ih hbody).2⟩⟩
  | breakLoop =>
    refine ⟨fun i hi => ?_, nofun⟩
    obtain rfl := mem_singleton.mp hi
    exact hcode.head

end

end NasuaOS.SuaScript
