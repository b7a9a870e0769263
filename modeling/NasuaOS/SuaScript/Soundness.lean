import NasuaOS.SuaScript.Correctness
import NasuaOS.SuaScript.Shapes

/-!
# Well-formed code and types at run time

Every state of a run has a stack of the shape that its position has, except that a variable that is
read before its first assignment has no type. So no instruction lacks operands, there is nothing on
the stack between statements, and the types are those that the compiler checked as long as no variable
is read too early. A program is in an invalid state only when its stack is full.
-/

namespace NasuaOS.SuaScript

open Base Libc Function List

/-- The state of a run after a number of steps. -/
inductive After (p : Executable) : Nat → State → Prop
  | start : After p 0 .start
  | step {k : Nat} {s t : State} (h : After p k s) (hnext : s.next p = .ok t) : After p (k + 1) t

/-- The values that an instruction takes from the stack. -/
def Op.pops : Op → Nat
  | .pushInteger | .pushBoolean | .pushString | .load | .jump => 0
  | .store | .negate | .not | .print | .jumpIfFalse => 1
  | _ => 2

/-- A variable is read before its first assignment. -/
def State.ReadsUnassigned (s : State) (i : Instruction) : Prop :=
  i.op = .load ∧ (s.values i.operand.toNat).type = .invalid

/-- The type of a slot. -/
def declaredIn (vars : List Variable) (slot : Nat) : Option ValueType := (vars[slot]?).map (·.type)

/-- The types of operands that an instruction is compiled for, the top first. -/
def Op.Accepts (type : Option ValueType) : Op → List ValueType → Prop
  | .store, v :: _ => some v = type
  | .negate, v :: _ => v = .integer
  | .not, v :: _ => v = .boolean
  | .print, v :: _ => v ≠ .invalid
  | .jumpIfFalse, v :: _ => v = .boolean
  | .equal, r :: l :: _ | .notEqual, r :: l :: _ => l = r ∧ r ≠ .invalid
  | .and, r :: l :: _ | .or, r :: l :: _ => l = .boolean ∧ r = .boolean
  | .pushInteger, _ | .pushBoolean, _ | .pushString, _ | .load, _ | .jump, _ => True
  | _, r :: l :: _ => l = .integer ∧ r = .integer
  | _, _ => False

/-- An instruction meets the types that the compiler checked: what is loaded has the type of the
variable, the operands are those that the instruction is for, and the stack has the static types. -/
structure State.Respects (s : State) (vars : List Variable) (shape : Nat → List ValueType)
    (i : Instruction) : Prop where
  loaded : i.op = .load → some (s.values i.operand.toNat).type = declaredIn vars i.operand.toNat
  operands : i.op.Accepts (declaredIn vars i.operand.toNat) (s.stack.map (·.type))
  static : s.stack.map (·.type) = shape s.pc

/-- A value has a type; leniently, it may also have none. -/
def Fits (lenient : Bool) (r : RuntimeValue) (type : ValueType) : Prop :=
  (r.type = type ∧ type ≠ .invalid) ∨ (lenient = true ∧ r.type = .invalid)

/-- The stack and the variables have their types. -/
structure Shaped (p : Executable) (declared : Nat → Option ValueType)
    (shape : Nat → List ValueType) (lenient : Bool) (s : State) : Prop where
  pc : s.pc ≤ p.code.length
  stack : Forall₂ (Fits lenient) s.stack (shape s.pc)
  depth : s.stack.length ≤ maxStack
  values : ∀ slot type, declared slot = some type → Fits true (s.values slot) type

variable {type : ValueType} {op : Binary} {text : Nat → Bytes} {room last pc : Nat}
  {shape : Nat → List ValueType} {i : Instruction} {vars : List Variable} {s : State}

private theorem Fits.of_type {lenient : Bool} {r : RuntimeValue} (h : r.type = type)
    (hvalid : type ≠ .invalid) : Fits lenient r type := .inl ⟨h, hvalid⟩

private theorem Fits.lenient {lenient : Bool} {r : RuntimeValue} (h : Fits lenient r type) :
    Fits true r type := h.imp_right fun h => ⟨rfl, h.2⟩

/-- The type that an operator gives. -/
def Binary.result : Binary → ValueType
  | .add | .subtract | .multiply | .divide | .modulo => .integer
  | _ => .boolean

private theorem Binary.result_ne (op : Binary) : op.result ≠ .invalid := by
  cases op <;> nofun

private theorem Binary.type_eq {l r : ValueType} (h : op.type l r = some type) :
    type = op.result := by
  cases op <;> cases l <;> cases r <;> cases h <;> rfl

private theorem combine_type {a b q : RuntimeValue} (hq : combine text op.op a b = .ok q) :
    q.type = op.result := by
  unfold combine at hq
  cases op with
  | divide | modulo =>
    simp only [Binary.op] at hq
    split_ifs at hq <;> cases hq <;> rfl
  | _ => cases hq; rfl

private theorem combine_regular {a b : RuntimeValue} :
    combine text op.op a b ≠ .error .invalidState := by
  intro h
  unfold combine at h
  cases op with
  | divide | modulo =>
    simp only [Binary.op] at h
    split_ifs at h
    cases h
  | _ => cases h

private theorem Flows.target {declared : Nat → Option ValueType} (h : Flows declared room last shape pc i)
    (hop : i.op = .jump ∨ i.op = .jumpIfFalse) : 0 ≤ i.operand ∧ i.operand ≤ last := by
  cases h with
  | jump target hlast | jumpIfFalse target hlast => simp only; omega
  | binary op => cases op <;> simp [Binary.op] at hop
  | _ => simp at hop

private theorem Flows.pops {declared : Nat → Option ValueType}
    (h : Flows declared room last shape pc i) : i.op.pops ≤ (shape pc).length := by
  cases h with
  | pushInteger | pushBoolean | pushString | load | jump => exact Nat.zero_le _
  | binary op l r type stack hshape =>
    rw [hshape, length_cons, length_cons]
    cases op <;> exact Nat.le_add_left _ _
  | store _ _ _ hshape | negate _ hshape | not _ hshape | print _ hshape
    | jumpIfFalse _ _ hshape =>
    rw [hshape, length_cons]
    exact Nat.le_add_left _ _

/-- The end of a step: the state has its types, or the stack was full. -/
inductive Advances (p : Executable) (declared : Nat → Option ValueType)
    (shape : Nat → List ValueType) (lenient : Bool) (room : Nat) : Except Fault State → Prop
  | ok {t : State} (h : Shaped p declared shape lenient t) :
      Advances p declared shape lenient room (.ok t)
  | error (f : Fault) (h : f = .invalidState → maxStack < room) :
      Advances p declared shape lenient room (.error f)

section

variable {p : Executable} {declared : Nat → Option ValueType} {shape : Nat → List ValueType}
  {lenient : Bool} {room : Nat} {s : State}

variable {rest : List RuntimeValue}

section

variable (h : Shaped p declared shape lenient s)

include h

private theorem Shaped.push (hpc : s.pc < p.code.length) {stack : List ValueType} {v : RuntimeValue}
    {type : ValueType} (hrest : Forall₂ (Fits lenient) rest stack) (hv : Fits lenient v type)
    (hnext : shape (s.pc + 1) = type :: stack) (hroom : maxStack ≤ rest.length → maxStack < room) :
    Advances p declared shape lenient room ({ s with stack := rest }.push v) := by
  unfold State.push
  split
  · next hfull => exact .error _ fun _ => hroom hfull
  · next hfull =>
    refine .ok ⟨hpc, ?_, ?_, h.values⟩
    · rw [hnext]
      exact .cons hv hrest
    · exact Nat.lt_of_not_le hfull

private theorem Shaped.jump {target : Nat} (hrest : Forall₂ (Fits lenient) rest (shape target))
    (hdepth : rest.length ≤ s.stack.length) (hlast : target ≤ p.code.length) :
    Advances p declared shape lenient room ({ s with stack := rest }.jump p target) := by
  unfold State.jump
  rw [if_neg (by omega)]
  exact .ok ⟨hlast, hrest, hdepth.trans h.depth, h.values⟩

private theorem Shaped.execute {i : Instruction} (hpc : s.pc < p.code.length)
    (hflows : Flows declared room p.code.length shape s.pc i)
    (hcount : ∀ slot type, declared slot = some type → slot < p.variableCount ∧ type ≠ .invalid)
    (hread : lenient = false → ¬s.ReadsUnassigned i) :
    Advances p declared shape lenient room (s.execute p i) := by
  have hstack := h.stack
  have hdepth := h.depth
  cases hflows with
  | pushInteger n hroom hnext | pushBoolean n hroom hnext | pushString n hroom hnext =>
    have hlen := hstack.length_eq
    exact h.push hpc hstack (.of_type rfl nofun) hnext (by omega)
  | load slot type hslot hroom hnext =>
    obtain ⟨hslot_lt, hvalid⟩ := hcount slot type hslot
    have hv : Fits lenient (s.values slot) type := by
      rcases h.values slot type hslot with hv | ⟨-, hv⟩
      · exact .inl hv
      · cases lenient with
        | false => exact (hread rfl ⟨rfl, hv⟩).elim
        | true => exact .inr ⟨rfl, hv⟩
    have hlen := hstack.length_eq
    rw [State.execute_load hslot_lt]
    exact h.push hpc hstack hv hnext (by omega)
  | store slot type hslot hshape =>
    obtain ⟨hslot_lt, hvalid⟩ := hcount slot type hslot
    rw [hshape] at hstack
    obtain ⟨v, rest, hv, hrest, hs⟩ := forall₂_cons_right_iff.mp hstack
    have hdepth : rest.length ≤ maxStack := by
      rw [hs, length_cons] at hdepth
      omega
    rw [State.execute_store hslot_lt hs]
    refine .ok ⟨hpc, hrest, hdepth, fun other type' hother => ?_⟩
    show Fits true (update s.values slot v other) type'
    by_cases heq : other = slot
    · subst heq
      rw [update_self]
      cases hslot.symm.trans hother
      exact hv.lenient
    · rw [update_of_ne heq]
      exact h.values other type' hother
  | negate stack hshape hnext | not stack hshape hnext =>
    rw [hshape] at hstack
    obtain ⟨v, rest, hv, hrest, hs⟩ := forall₂_cons_right_iff.mp hstack
    unfold State.execute
    rw [hs] at hdepth ⊢
    exact h.push hpc hrest (.of_type rfl nofun) hnext
      fun hfull => (Nat.not_succ_le_self _ (hdepth.trans hfull)).elim
  | binary op l r type stack hshape htype hnext =>
    rw [hshape] at hstack
    obtain ⟨right, _, hright, htail, hs⟩ := forall₂_cons_right_iff.mp hstack
    obtain ⟨left, rest, hleft, hrest, rfl⟩ := forall₂_cons_right_iff.mp htail
    rw [State.execute_binary op hs]
    cases hq : combine p.text op.op left right with
    | error f => exact .error f fun hf => (combine_regular (hf ▸ hq)).elim
    | ok q =>
      have hv : Fits lenient q type := by
        rw [Binary.type_eq htype]
        exact .of_type (combine_type hq) op.result_ne
      rw [hs, length_cons, length_cons] at hdepth
      exact h.push hpc hrest hv hnext fun hfull => by omega
  | print type hshape =>
    rw [hshape] at hstack
    obtain ⟨v, rest, hv, hrest, hs⟩ := forall₂_cons_right_iff.mp hstack
    unfold State.execute
    rw [hs] at hdepth ⊢
    exact .ok ⟨hpc, hrest, Nat.le_of_succ_le hdepth, h.values⟩
  | jump target hlast hshape =>
    rw [← hshape] at hstack
    exact h.jump hstack le_rfl hlast
  | jumpIfFalse target hlast hshape htarget =>
    rw [hshape] at hstack
    obtain ⟨v, rest, hv, hrest, hs⟩ := forall₂_cons_right_iff.mp hstack
    have hle : rest.length ≤ s.stack.length := by simp [hs]
    unfold State.execute
    rw [hs]
    simp only
    split
    · rw [← htarget] at hrest
      exact h.jump hrest hle hlast
    · exact .ok ⟨hpc, hrest, hle.trans hdepth, h.values⟩

end

end

/-- The types that the compiler gives to the stack at a position. -/
def Stmt.static (ast : Stmt) (vars : List Variable) : Nat → List ValueType :=
  shapeAt (ast.shapes (typesIn vars))

private theorem Stmt.static_end (ast : Stmt) (vars : List Variable) :
    ast.static vars (0 + ast.size) = [] := by
  simp [Stmt.static, shapeAt, Stmt.length_shapes]

private theorem declaredIn_slotIn {x : Bytes} (h : typesIn vars x = some type) :
    declaredIn vars (slotIn vars x) = some type := by
  obtain ⟨slot, hslot, rfl⟩ := Option.map_eq_some_iff.mp h
  have hlt := slotOf_lt hslot
  simp [declaredIn, slotIn, hslot, hlt]

/-- The room that is enough for some expressions. -/
def roomFor (exprs : List Expr) : Nat := (exprs.map Expr.need).foldr max 0

private theorem need_le_roomFor {exprs : List Expr} {e : Expr} (h : e ∈ exprs) :
    e.need ≤ roomFor exprs := by
  induction exprs with
  | nil => exact absurd h not_mem_nil
  | cons first rest ih =>
    rcases mem_cons.mp h with rfl | h
    · exact le_max_left _ _
    · exact (ih h).trans (le_max_right _ _)

private theorem Shaped.start (p : Executable) (ast : Stmt) (vars : List Variable) (lenient : Bool) :
    Shaped p (declaredIn vars) (ast.static vars) lenient .start := by
  have hstart : ast.static vars 0 = [] := Stmt.shapeAt_start (.self _) (ast.static_end vars)
  refine ⟨Nat.zero_le _, ?_, Nat.zero_le _, fun _ _ _ => .inr ⟨rfl, rfl⟩⟩
  change Forall₂ _ [] (ast.static vars 0)
  rw [hstart]
  exact .nil

namespace Built

variable {source : Bytes} {p : Executable} {tokens : List Token} {vars : List Variable}
  {ast : Stmt} (h : Built source p tokens vars ast)

include h

private theorem length_code : p.code.length = ast.size := by
  rw [h.code, Stmt.length_code]

private theorem flows {room : Nat} (hroom : ∀ e ∈ ast.exprs, e.need ≤ room) :
    FlowsOn (declaredIn vars) room p.code.length (ast.static vars) 0 p.code := by
  rw [h.length_code, h.code]
  exact Stmt.flows (fun x type => declaredIn_slotIn) (.self _) (ast.static_end vars)
    (Nat.zero_add _).le h.typed hroom nofun

private theorem declared (slot : Nat) (type : ValueType) (hslot : declaredIn vars slot = some type) :
    slot < p.variableCount ∧ type ≠ .invalid := by
  obtain ⟨v, hv, rfl⟩ := Option.map_eq_some_iff.mp hslot
  obtain ⟨hlt, rfl⟩ := List.getElem?_eq_some_iff.mp hv
  exact ⟨h.variableCount ▸ hlt, h.valid _ (getElem_mem hlt)⟩

private theorem advances {room : Nat} {lenient : Bool} {s : State} {i : Instruction}
    (hroom : ∀ e ∈ ast.exprs, e.need ≤ room)
    (hs : Shaped p (declaredIn vars) (ast.static vars) lenient s) (hi : p.code[s.pc]? = some i)
    (hread : lenient = false → ¬s.ReadsUnassigned i) :
    Advances p (declaredIn vars) (ast.static vars) lenient room (s.execute p i) := by
  have hflows := h.flows hroom s.pc i hi
  rw [Nat.zero_add] at hflows
  exact hs.execute (List.getElem?_eq_some_iff.mp hi).1 hflows h.declared hread

private theorem after {lenient : Bool} {k : Nat} {s : State} (hs : After p k s)
    (hread : lenient = false → ∀ j t i, j < k → After p j t → p.code[t.pc]? = some i →
      ¬t.ReadsUnassigned i) : Shaped p (declaredIn vars) (ast.static vars) lenient s := by
  induction hs with
  | start => exact .start p ast vars lenient
  | @step k s t hs hnext ih =>
    have hshaped := ih fun hl j t i hj => hread hl j t i (hj.trans k.lt_succ_self)
    unfold State.next at hnext
    split at hnext
    · cases hnext
    · next i hi =>
      have hadvances := h.advances (fun e => need_le_roomFor) hshaped hi
        fun hl => hread hl k s i k.lt_succ_self hs hi
      rw [hnext] at hadvances
      cases hadvances with
      | ok ht => exact ht

end Built

private theorem runFrom_stopped {p : Executable} {n k : Nat} {f : Fault} {out : Bytes}
    (hs : After p k s) (h : runFrom p n s = .stopped f out) :
    ∃ j t i, After p j t ∧ p.code[t.pc]? = some i ∧ t.execute p i = .error f := by
  induction n generalizing k s with
  | zero =>
    unfold runFrom at h
    split at h <;> cases h
  | succ n ih =>
    unfold runFrom at h
    split at h
    · cases h
    · next hpc =>
      have hi := getElem?_eq_getElem (Nat.lt_of_not_le hpc)
      simp only at h
      split at h
      · next hnext =>
        cases h
        rw [State.next, hi] at hnext
        exact ⟨k, s, _, hs, hi, hnext⟩
      · next hnext => exact ih (hs.step hnext) h

/-- Code of every accepted program is well formed: jumps stay inside the code or go to its end,
a `break` goes behind its own loop, there are operands for every instruction and nothing on the stack
between statements, and a run is in an invalid state only when an expression needs more room than
the stack has. -/
theorem build_wellFormed {source : Bytes} {p : Executable} {tokens : List Token}
    {engine : Engine} (h : build source = .ok (.ok (p, tokens, engine))) :
    ∃ ast, parse source tokens = some ast ∧
      (∀ i ∈ p.code, i.op = .jump ∨ i.op = .jumpIfFalse →
        0 ≤ i.operand ∧ i.operand ≤ p.code.length) ∧
      (∀ jump ∈ ast.exits 0, p.code[jump.1]? = some ⟨.jump, jump.2⟩) ∧
      (∀ k s i, After p k s → p.code[s.pc]? = some i → i.op.pops ≤ s.stack.length) ∧
      (∀ k s, After p k s → s.pc ∈ ast.boundaries 0 → s.stack = []) ∧
      (∀ out, run p = .stopped .invalidState out → ∃ e ∈ ast.exprs, maxStack < e.need) := by
  obtain ⟨ast, hbuilt⟩ := build_accepts h
  refine ⟨ast, hbuilt.parsed, ?_, ?_, ?_, ?_, ?_⟩
  · intro i hi hop
    obtain ⟨pc, hpc, rfl⟩ := getElem_of_mem hi
    have hflows := hbuilt.flows (fun e => need_le_roomFor) pc _ (getElem?_eq_getElem hpc)
    exact hflows.target hop
  · intro jump hjump
    rw [hbuilt.code]
    exact (Stmt.code_exits (.self _)).2 jump hjump
  · intro k s i hs hi
    have hshaped : Shaped p _ _ true s := hbuilt.after hs nofun
    have hflows := hbuilt.flows (fun e => need_le_roomFor) s.pc i hi
    rw [Nat.zero_add] at hflows
    exact hflows.pops.trans_eq hshaped.stack.length_eq.symm
  · intro k s hs hpc
    have hshaped : Shaped p _ _ true s := hbuilt.after hs nofun
    have hempty : ast.static engine.vars s.pc = [] :=
      Stmt.shapeAt_boundary (.self _) (ast.static_end engine.vars) hpc
    have hlen := hshaped.stack.length_eq
    rw [hempty] at hlen
    exact length_eq_zero_iff.mp hlen
  · intro out hrun
    by_contra hsmall
    push Not at hsmall
    obtain ⟨k, s, i, hs, hi, hexecute⟩ := runFrom_stopped .start hrun
    have hshaped : Shaped p _ _ true s := hbuilt.after hs nofun
    have hadvances := hbuilt.advances hsmall hshaped hi nofun
    rw [hexecute] at hadvances
    cases hadvances with
    | error f hf => exact lt_irrefl _ (hf rfl)

/-- The loop of `countSource` has a `break`, and its expressions need little room. -/
theorem build_wellFormed_count : ∃ p tokens engine ast,
    build countSource = .ok (.ok (p, tokens, engine)) ∧ parse countSource tokens = some ast ∧
      (∀ i ∈ p.code, i.op = .jump ∨ i.op = .jumpIfFalse →
        0 ≤ i.operand ∧ i.operand ≤ p.code.length) ∧
      (∃ jump ∈ ast.exits 0, p.code[jump.1]? = some ⟨.jump, jump.2⟩) ∧
      (∀ k s i, After p k s → p.code[s.pc]? = some i → i.op.pops ≤ s.stack.length) ∧
      (∀ k s, After p k s → s.pc ∈ ast.boundaries 0 → s.stack = []) ∧
      ∀ out, run p ≠ .stopped .invalidState out := by
  have hcheck : (built countSource).any (fun r => (parse countSource r.2.1).any fun ast =>
      decide (ast.exits 0 ≠ [] ∧ ∀ e ∈ ast.exprs, e.need ≤ maxStack)) = true := by
    decide +kernel
  obtain ⟨⟨p, tokens, engine⟩, hbuilt, hcheck⟩ := (Option.any_eq_true _ _).mp hcheck
  obtain ⟨ast, hparse, hjumps, hexits, hpops, hempty, hroom⟩ :=
    build_wellFormed (build_of_built hbuilt)
  rw [hparse, Option.any_some, decide_eq_true_eq] at hcheck
  obtain ⟨jump, hjump⟩ := exists_mem_of_ne_nil _ hcheck.1
  refine ⟨p, tokens, engine, ast, build_of_built hbuilt, hparse, hjumps,
    ⟨jump, hjump, hexits jump hjump⟩, hpops, hempty, fun out hrun => ?_⟩
  obtain ⟨e, he, hneed⟩ := hroom out hrun
  exact absurd (hcheck.2 e he) (Nat.not_le.mpr hneed)

private theorem types_of_fits {stack : List RuntimeValue} {types : List ValueType}
    (h : Forall₂ (Fits false) stack types) :
    stack.map (·.type) = types ∧ ∀ type ∈ types, type ≠ .invalid := by
  induction h with
  | nil => exact ⟨rfl, nofun⟩
  | cons hfirst _ ih =>
    obtain ⟨htype, hvalid⟩ := hfirst.resolve_right nofun
    exact ⟨by rw [map_cons, ih.1, htype], forall_mem_cons.mpr ⟨hvalid, ih.2⟩⟩

private theorem Flows.accepts {declared : Nat → Option ValueType} (h : Flows declared room last shape pc i)
    (hvalid : ∀ type ∈ shape pc, type ≠ .invalid) :
    i.op.Accepts (declared i.operand.toNat) (shape pc) := by
  cases h with
  | pushInteger | pushBoolean | pushString | load | jump => trivial
  | store slot type hslot hshape =>
    rw [hshape]
    exact hslot.symm
  | negate _ hshape | not _ hshape | jumpIfFalse _ _ hshape =>
    rw [hshape]
    rfl
  | print type hshape =>
    rw [hshape] at hvalid ⊢
    exact hvalid type mem_cons_self
  | binary op l r type stack hshape htype =>
    rw [hshape] at hvalid ⊢
    have hr := hvalid r mem_cons_self
    revert htype hr
    cases op <;> cases l <;> cases r <;> simp [Binary.type, Op.Accepts, Binary.op]

private theorem Shaped.respects {p : Executable} (h : Shaped p (declaredIn vars) shape false s)
    (hflows : Flows (declaredIn vars) room p.code.length shape s.pc i)
    (hread : ¬s.ReadsUnassigned i) : s.Respects vars shape i := by
  obtain ⟨hstatic, hvalid⟩ := types_of_fits h.stack
  refine ⟨fun hop => ?_, ?_, hstatic⟩
  · cases hflows with
    | load slot type hslot =>
      rcases h.values slot type hslot with hv | ⟨-, hv⟩
      · exact (congrArg some hv.1).trans hslot.symm
      · exact (hread ⟨rfl, hv⟩).elim
    | binary op => cases op <;> cases hop
    | _ => cases hop
  · rw [hstatic]
    exact hflows.accepts hvalid

private theorem State.Respects.assigned (h : s.Respects vars shape i)
    (hvalid : ∀ v ∈ vars, v.type ≠ .invalid) : ¬s.ReadsUnassigned i := by
  rintro ⟨hop, hv⟩
  have hloaded := h.loaded hop
  rw [hv] at hloaded
  obtain ⟨v, hmem, htype⟩ := Option.map_eq_some_iff.mp hloaded.symm
  exact hvalid v (mem_of_getElem? hmem) htype

/-- Types are respected in a run if and only if no variable is loaded before its first assignment. -/
theorem run_respects_iff {source : Bytes} {p : Executable} {tokens : List Token}
    {engine : Engine} (h : build source = .ok (.ok (p, tokens, engine))) :
    ∃ ast, parse source tokens = some ast ∧
      ((∀ k s i, k < maxSteps → After p k s → p.code[s.pc]? = some i →
          s.Respects engine.vars (ast.static engine.vars) i) ↔
        ∀ k s i, k < maxSteps → After p k s → p.code[s.pc]? = some i → ¬s.ReadsUnassigned i) := by
  obtain ⟨ast, hbuilt⟩ := build_accepts h
  refine ⟨ast, hbuilt.parsed, fun hall k s i hk hs hi => ?_, fun hall k s i hk hs hi => ?_⟩
  · exact (hall k s i hk hs hi).assigned hbuilt.valid
  · have hshaped : Shaped p _ _ false s :=
      hbuilt.after hs fun _ j t i hj => hall j t i (hj.trans hk)
    have hflows := hbuilt.flows (fun e => need_le_roomFor) s.pc i hi
    rw [Nat.zero_add] at hflows
    exact hshaped.respects hflows (hall k s i hk hs hi)

instance (s : State) (i : Instruction) : Decidable (s.ReadsUnassigned i) :=
  inferInstanceAs (Decidable (_ ∧ _))

/-- A run that ends within a number of steps and reads no variable too early. -/
def readsAssigned (p : Executable) : Nat → State → Bool
  | 0, _ => false
  | n + 1, s =>
    (p.code[s.pc]?).all fun i =>
      decide (¬s.ReadsUnassigned i) && (s.next p).toOption.all (readsAssigned p n)

private theorem readsAssigned_after {p : Executable} {n k : Nat} (h : readsAssigned p n .start = true)
    (hs : After p k s) : ∃ m, readsAssigned p (m + 1) s = true := by
  induction hs with
  | start =>
    cases n with
    | zero => cases h
    | succ m => exact ⟨m, h⟩
  | @step _ s t _ hnext ih =>
    obtain ⟨m, hm⟩ := ih
    rw [readsAssigned, hnext] at hm
    cases hi : p.code[s.pc]? with
    | none =>
      rw [State.next, hi] at hnext
      cases hnext
    | some i =>
      simp only [hi, Option.all_some, Except.toOption, Bool.and_eq_true] at hm
      cases m with
      | zero => cases hm.2
      | succ m => exact ⟨m, hm.2⟩

/-- All instructions of the loop meet the types that were checked. -/
theorem run_respects_iff_count : ∃ p tokens engine ast,
    build countSource = .ok (.ok (p, tokens, engine)) ∧ run p = .completed [48, 10, 50, 10] ∧
      parse countSource tokens = some ast ∧
      ∀ k s i, k < maxSteps → After p k s → p.code[s.pc]? = some i →
        s.Respects engine.vars (ast.static engine.vars) i := by
  have hbuilt : (built countSource).map (fun r => (run r.1, readsAssigned r.1 99 .start)) =
      some (.completed [48, 10, 50, 10], true) := by
    decide +kernel
  obtain ⟨⟨p, tokens, engine⟩, hbuilt, hrun⟩ := Option.map_eq_some_iff.mp hbuilt
  obtain ⟨hout, hreads⟩ := Prod.mk.inj hrun
  obtain ⟨ast, hparse, hiff⟩ := run_respects_iff (build_of_built hbuilt)
  refine ⟨p, tokens, engine, ast, build_of_built hbuilt, hout, hparse, hiff.mpr ?_⟩
  intro k s i _ hs hi
  obtain ⟨m, hm⟩ := readsAssigned_after hreads hs
  rw [readsAssigned, hi, Option.all_some, Bool.and_eq_true] at hm
  exact of_decide_eq_true hm.1

/-- A variable that is its own initial value. -/
def selfSource : Bytes := ascii "string s = s; print(s);".toList

/-- The first instruction loads a value without a type, which is printed as a number. -/
theorem run_not_respects : ∃ p tokens engine i,
    build selfSource = .ok (.ok (p, tokens, engine)) ∧ run p = .completed (ascii "0\n".toList) ∧
      After p 0 .start ∧ p.code[State.start.pc]? = some i ∧
      ∀ shape, ¬State.start.Respects engine.vars shape i := by
  have hbuilt : (built selfSource).map
      (fun r => (run r.1, r.1.code[0]?, declaredIn r.2.2.vars 0)) =
        some (.completed (ascii "0\n".toList), some ⟨.load, 0⟩, some .string) := by
    decide +kernel
  obtain ⟨⟨p, tokens, engine⟩, hbuilt, hrun⟩ := Option.map_eq_some_iff.mp hbuilt
  obtain ⟨hout, hrest⟩ := Prod.mk.inj hrun
  obtain ⟨hi, hdeclared⟩ := Prod.mk.inj hrest
  refine ⟨p, tokens, engine, _, build_of_built hbuilt, hout, .start, hi, fun shape h => ?_⟩
  have hloaded := h.loaded rfl
  rw [show declaredIn engine.vars (Int.toNat 0) = some .string from hdeclared] at hloaded
  cases hloaded

end NasuaOS.SuaScript
