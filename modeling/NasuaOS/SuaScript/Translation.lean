import NasuaOS.Base.Sticky
import NasuaOS.SuaScript.Syntax

/-!
# The code of expressions and assignments

Whoever finds no error at the end may read the pass as a parser: each function of the compiler reads
the tree that the grammar reads at the same position and appends the code of that tree. The table of
variables only grows, so what was emitted stays right for every longer one.
-/

namespace NasuaOS.SuaScript

open Base List

/-! ### Variables -/

/-- The slot of a variable. -/
def slotIn (vars : List Variable) (x : Bytes) : Nat := (slotOf vars x).getD 0

/-- The type of a variable. -/
def typesIn (vars : List Variable) (x : Bytes) : Option ValueType :=
  (slotOf vars x).map fun slot => (vars.getD slot ⟨[], .invalid⟩).type

variable {vars more : List Variable} {x : Bytes} {slot : Nat} {type : ValueType}

private theorem slotOf_mono (h : vars <+: more) (hx : slotOf vars x = some slot) :
    slotOf more x = some slot := by
  obtain ⟨rest, rfl⟩ := h
  unfold slotOf at hx ⊢
  rw [findIdx?_append, hx]
  rfl

/-- The slot of a variable in a longer table. -/
theorem slotIn_eq (h : vars <+: more) (hx : slotOf vars x = some slot) : slotIn more x = slot := by
  rw [slotIn, slotOf_mono h hx]
  rfl

/-- The slot of a variable is inside the table. -/
theorem slotOf_lt (hx : slotOf vars x = some slot) : slot < vars.length := by
  exact (findIdx?_eq_some_iff_getElem.mp hx).1

/-- The variable in the slot of a name has this name. -/
theorem name_of_slotOf (hx : slotOf vars x = some slot) :
    (vars.getD slot ⟨[], .invalid⟩).name = x := by
  have hlt := slotOf_lt hx
  obtain ⟨_, hname, _⟩ := findIdx?_eq_some_iff_getElem.mp hx
  rw [getD_eq_getElem _ _ hlt]
  exact eq_of_beq hname

private theorem typesIn_mono (h : vars <+: more) (hx : typesIn vars x = some type) :
    typesIn more x = some type := by
  obtain ⟨slot, hslot, rfl⟩ := Option.map_eq_some_iff.mp hx
  refine Option.map_eq_some_iff.mpr ⟨slot, slotOf_mono h hslot, ?_⟩
  obtain ⟨rest, rfl⟩ := h
  rw [getD_append _ _ _ _ (slotOf_lt hslot)]

/-- A variable with a type has a slot. -/
theorem exists_slotOf (hx : typesIn vars x = some type) : ∃ slot, slotOf vars x = some slot :=
  (Option.map_eq_some_iff.mp hx).imp fun _ h => h.1

/-- An expression keeps its type in a longer table. -/
theorem Expr.type_mono (e : Expr) (h : vars <+: more) (he : e.type (typesIn vars) = some type) :
    e.type (typesIn more) = some type := by
  induction e generalizing type with
  | number | string | boolean => exact he
  | var x => exact typesIn_mono h he
  | negate e ih | not e ih =>
    simp only [Expr.type_negate, Expr.type_not] at he ⊢
    exact ⟨ih he.1, he.2⟩
  | binary op left right ihl ihr =>
    rw [Expr.type_binary] at he ⊢
    obtain ⟨l, r, hl, hr, hop⟩ := he
    exact ⟨l, r, ihl hl, ihr hr, hop⟩

/-- An expression with a type keeps its code in a longer table. -/
theorem Expr.code_mono (e : Expr) (h : vars <+: more) (he : e.type (typesIn vars) = some type) :
    e.code (slotIn more) = e.code (slotIn vars) := by
  induction e generalizing type with
  | number | string | boolean => rfl
  | var x =>
    obtain ⟨slot, hslot⟩ := exists_slotOf he
    simp only [Expr.code, slotIn_eq h hslot, slotIn_eq (prefix_refl vars) hslot]
  | negate e ih | not e ih =>
    simp only [Expr.type_negate, Expr.type_not] at he
    simp only [Expr.code, ih he.1]
  | binary op left right ihl ihr =>
    obtain ⟨l, r, hl, hr, -⟩ := Expr.type_binary.mp he
    simp only [Expr.code, ihl hl, ihr hr]

/-! ### Single steps -/

section

variable (source : Bytes) (tokens : List Token)

/-- No error was met. -/
abbrev NoError (e : Engine) : Prop := e.error = none

/-- The engine behind the token. -/
@[simps]
def Engine.advanced (e : Engine) : Engine := { e with position := e.position + 1 }

/-- The engine behind an instruction. -/
@[simps]
def Engine.emitted (e : Engine) (op : Op) (operand : Int) : Engine :=
  { e with code := e.code ++ [⟨op, operand⟩] }

/-- Code was appended, and perhaps tokens were passed. -/
structure Engine.Grows (s t : Engine) (code : List Instruction) : Prop where
  code : t.code = s.code ++ code
  vars : t.vars = s.vars
  loops : t.loops = s.loops
  breakJumps : t.breakJumps = s.breakJumps

namespace Engine.Grows

variable {s t u : Engine} {code more : List Instruction}

/-- Nothing is appended. -/
theorem refl (s : Engine) : s.Grows s [] := ⟨(append_nil _).symm, rfl, rfl, rfl⟩

/-- One piece of code after another. -/
theorem trans (h : s.Grows t code) (h' : t.Grows u more) : s.Grows u (code ++ more) where
  code := by rw [h'.code, h.code, append_assoc]
  vars := h'.vars.trans h.vars
  loops := h'.loops.trans h.loops
  breakJumps := h'.breakJumps.trans h.breakJumps

/-- The length of the code. -/
theorem length_code {c : Expr} {slot : Bytes → Nat} (h : s.Grows t (c.code slot)) :
    t.code.length = s.code.length + c.size := by
  rw [h.code]
  simp

/-- Behind a token. -/
theorem advanced (h : s.advanced.Grows t code) : s.Grows t code :=
  ⟨h.code, h.vars, h.loops, h.breakJumps⟩

/-- Before a token. -/
theorem advance (h : s.Grows t code) : s.Grows t.advanced code :=
  ⟨h.code, h.vars, h.loops, h.breakJumps⟩

/-- Before an instruction. -/
theorem emit (h : s.Grows t code) (op : Op) (operand : Int) :
    s.Grows (t.emitted op operand) (code ++ [⟨op, operand⟩]) :=
  h.trans ⟨rfl, rfl, rfl, rfl⟩

end Engine.Grows

/-- Reading a token. -/
theorem current_clean :
    Clean NoError (current tokens) fun s a t => a = tokenAt tokens s.position ∧ t = s :=
  .of_eq (fun _ => rfl) fun _ h => ⟨h, rfl, rfl⟩

/-- Reading the token before. -/
theorem previous_clean :
    Clean NoError (previous tokens) fun s a t => a = tokenAt tokens (s.position - 1) ∧ t = s :=
  .of_eq (fun _ => rfl) fun _ h => ⟨h, rfl, rfl⟩

/-- Going on. -/
theorem advance_clean : Clean NoError advance fun s _ t => t = s.advanced :=
  .of_eq (fun _ => rfl) fun _ h => ⟨h, rfl⟩

private theorem setError_clean {message : String} {line : Nat} {Q : Engine → Unit → Engine → Prop} :
    Clean NoError (setError message line) Q :=
  .of_eq (fun _ => rfl) fun s h => by simp [NoError] at h

/-- Returning with an error. -/
theorem setError_return {α : Type} {message : String} {line : Nat} {a : α}
    {Q : Engine → α → Engine → Prop} : Clean NoError (do setError message line; return a) Q :=
  .of_eq (fun _ => rfl) fun s h => by simp [NoError] at h

private theorem matchKind_clean (kind : TokenKind) :
    Clean NoError (matchKind tokens kind) fun s a t =>
      if (tokenAt tokens s.position).kind = kind then a = true ∧ t = s.advanced
      else a = false ∧ t = s := by
  refine (current_clean tokens).bind fun token => ?_
  split
  · next hkind =>
    refine advance_clean.bind fun _ => .pure ?_
    rintro _ s rfl s ⟨rfl, rfl⟩
    rw [if_pos hkind]
    exact ⟨rfl, rfl⟩
  · next hkind =>
    refine .pure ?_
    rintro _ s ⟨rfl, rfl⟩
    rw [if_neg hkind]
    exact ⟨rfl, rfl⟩

private theorem matchKind_bind {α : Type} {kind : TokenKind} {f : Bool → CompileM α}
    {R : Engine → α → Engine → Prop} (hfound : Clean NoError (f true) fun m a t => ∀ s : Engine,
      (tokenAt tokens s.position).kind = kind → m = s.advanced → R s a t)
    (hother : Clean NoError (f false) fun s a t =>
      (tokenAt tokens s.position).kind ≠ kind → R s a t) :
    Clean NoError (matchKind tokens kind >>= f) R := by
  refine (matchKind_clean tokens kind).bind fun found => ?_
  cases found with
  | true =>
    refine hfound.mono fun m a t ht s hs => ?_
    split at hs
    · next hkind => exact ht s hkind hs.2
    · exact absurd hs.1 (by decide)
  | false =>
    refine hother.mono fun m a t ht s hs => ?_
    split at hs
    · exact absurd hs.1 (by decide)
    · next hkind =>
      obtain ⟨-, rfl⟩ := hs
      exact ht hkind

/-- A token that may be passed. -/
theorem optional_clean (kind : TokenKind) :
    Clean NoError (discard (matchKind tokens kind)) fun s _ t =>
      Parser.optional tokens kind s.position = some (⟨⟩, t.position) ∧ s.Grows t [] := by
  refine (matchKind_clean tokens kind).discard.mono ?_
  rintro s _ t ⟨found, ht⟩
  rw [Parser.optional_eq]
  split at ht
  · next hkind =>
    obtain ⟨-, rfl⟩ := ht
    exact ⟨by simp [hkind], (Engine.Grows.refl s).advance⟩
  · next hkind =>
    obtain ⟨-, rfl⟩ := ht
    exact ⟨by simp [hkind], .refl t⟩

/-- Something that must hold. -/
theorem check_clean (ok : Bool) (message : String) :
    Clean NoError (check tokens ok message) fun s _ t => ok = true ∧ t = s := by
  unfold check
  split
  · next h => exact .pure fun _ => ⟨h, rfl⟩
  · exact (current_clean tokens).bind fun _ => setError_clean

private theorem errorIf_clean (wrong : Prop) [Decidable wrong] (message : String) (line : Nat) :
    Clean NoError (errorIf wrong message line) fun s _ t => ¬wrong ∧ t = s := by
  unfold errorIf
  split
  · exact setError_clean
  · next h => exact .pure fun _ => ⟨h, rfl⟩

private theorem expect_clean (kind : TokenKind) (message : String) :
    Clean NoError (expect tokens kind message) fun s a t =>
      a = true ∧ (tokenAt tokens s.position).kind = kind ∧ t = s.advanced := by
  refine matchKind_bind tokens ?_ ?_
  · exact .pure fun t s hkind ht => ⟨rfl, hkind, ht⟩
  · exact (current_clean tokens).bind fun _ => setError_return

/-- An instruction. -/
theorem emit_clean (op : Op) (operand : Int) : Clean NoError (emit tokens op operand) fun s a t =>
      a = some s.code.length ∧ t = s.emitted op operand := by
  refine .of_run fun s a t hrun ht => ?_
  change (if maxInstructions ≤ s.code.length then _ else _ : CompileM (Option Nat)) s = _ at hrun
  split at hrun <;> cases hrun
  · simp [NoError] at ht
  · exact ⟨ht, rfl, rfl⟩

/-! ### Expressions -/

/-- The engine behind the code of the expression that a parser reads. -/
def Compiles (q : Parser Expr) (s : Engine) (type : ValueType) (t : Engine) : Prop :=
  ∃ e, q s.position = some (e, t.position) ∧ e.type (typesIn s.vars) = some type ∧
    s.Grows t (e.code (slotIn s.vars))

private theorem push_clean {op : Op} {operand : Int} {type : ValueType}
    {P : Engine → ValueType → Engine → Prop}
    (h : ∀ s : Engine, P s type (s.advanced.emitted op operand)) :
    Clean NoError (do advance; discard (emit tokens op operand); return type) P := by
  refine advance_clean.bind fun _ => (emit_clean tokens op operand).discard.bind fun _ => .pure ?_
  rintro t m ⟨_, -, rfl⟩ s rfl
  exact h s

variable {expression operand : CompileM ValueType} {q : Parser Expr} {s t : Engine}
  {type : ValueType} {vars : List Variable} {x : Bytes}

private theorem parsePrimary_clean (h : Clean NoError expression (Compiles q)) :
    Clean NoError (parsePrimary source tokens expression)
      (Compiles (Parser.primary source tokens q)) := by
  have hgrows (s : Engine) (op : Op) (operand : Int) :
      s.Grows (s.advanced.emitted op operand) [⟨op, operand⟩] :=
    (Engine.Grows.refl s).advance.emit op operand
  refine (current_clean tokens).bind fun token => Clean.get.bind fun e => ?_
  split
  · next hkind =>
    refine push_clean tokens ?_
    rintro s _ ⟨rfl, rfl⟩ _ ⟨rfl, rfl⟩
    exact ⟨.number (tokenAt tokens s.position).number, by simp [Parser.primary, hkind], rfl,
      hgrows s _ _⟩
  · next hkind =>
    refine push_clean tokens ?_
    rintro s _ ⟨rfl, rfl⟩ _ ⟨rfl, rfl⟩
    exact ⟨.string s.position, by simp [Parser.primary, hkind], rfl, hgrows s _ _⟩
  · next hkind =>
    refine push_clean tokens ?_
    rintro s _ ⟨rfl, rfl⟩ _ ⟨rfl, rfl⟩
    exact ⟨.boolean true, by simp [Parser.primary, hkind], rfl, hgrows s _ _⟩
  · next hkind =>
    refine push_clean tokens ?_
    rintro s _ ⟨rfl, rfl⟩ _ ⟨rfl, rfl⟩
    exact ⟨.boolean false, by simp [Parser.primary, hkind], rfl, hgrows s _ _⟩
  · next hkind =>
    refine advance_clean.bind fun _ => ?_
    split
    · exact setError_return
    · next slot hslot =>
      refine (emit_clean tokens _ _).discard.bind fun _ => .pure ?_
      rintro t m ⟨_, -, rfl⟩ s rfl _ ⟨rfl, rfl⟩ _ ⟨rfl, rfl⟩
      refine ⟨.var (tokenText source (tokenAt tokens s.position)), ?_, ?_, ?_⟩
      · simp [Parser.primary, hkind]
      · exact Option.map_eq_some_iff.mpr ⟨slot, hslot, rfl⟩
      · simp only [Expr.code, slotIn, hslot]
        exact hgrows s _ _
  · next hkind =>
    refine advance_clean.bind fun _ => h.bind fun type => ?_
    refine (expect_clean tokens _ _).discard.bind fun _ => .pure ?_
    rintro t m ⟨_, -, hclose, rfl⟩ a ⟨e, hq, htype, ha⟩ s rfl _ ⟨rfl, rfl⟩ _ ⟨rfl, rfl⟩
    refine ⟨e, ?_, htype, ha.advanced.advance⟩
    rw [Engine.advanced_position] at hq
    simp only [Parser.primary, Parser.run_get, Parser.run_peek, Parser.run_skip, hkind]
    rw [Parser.run_bind hq, Parser.run_token tokens hclose]
    rfl
  · exact setError_return

private theorem Compiles.congr {q' : Parser Expr} (h : Compiles q s type t)
    (hq : q' s.position = q s.position) : Compiles q' s type t := by
  obtain ⟨e, he, hrest⟩ := h
  exact ⟨e, hq.trans he, hrest⟩

private theorem Compiles.skip (h : Compiles q s.advanced type t) :
    Compiles (do Parser.skip; q) s type t := by
  obtain ⟨e, hq, htype, ht⟩ := h
  exact ⟨e, hq, htype, ht.advanced⟩

private theorem unaryOperand_clean (h : Clean NoError operand (Compiles q)) {op : Op}
    (message : String) {wrap : Expr → Expr}
    (htype : ∀ types e, e.type types = some type → (wrap e).type types = some type)
    (hcode : ∀ slot e, (wrap e).code slot = e.code slot ++ [⟨op, 0⟩]) :
    Clean NoError (do
      let found ← operand
      check tokens (found == type) message
      discard (emit tokens op 0)
      return type) (Compiles (do return wrap (← q))) := by
  refine h.bind fun found => (check_clean tokens _ _).bind fun _ => ?_
  refine (emit_clean tokens _ _).discard.bind fun _ => .pure ?_
  rintro _ t ⟨_, -, rfl⟩ _ ⟨hfound, rfl⟩ s ⟨e, hq, he, ht⟩
  obtain rfl := eq_of_beq hfound
  refine ⟨wrap e, ?_, htype _ e he, ?_⟩
  · rw [Parser.run_bind hq]
    rfl
  · rw [hcode]
    exact ht.emit op 0

private theorem parseUnary_clean (h : Clean NoError expression (Compiles q)) (fuel : Nat) :
    Clean NoError (parseUnary source tokens expression fuel)
      (Compiles (Parser.unary source tokens q fuel)) := by
  induction fuel with
  | zero => exact .outOfFuel
  | succ fuel ih =>
    refine matchKind_bind tokens ?_ (matchKind_bind tokens ?_ ?_)
    · refine (unaryOperand_clean tokens ih _ (fun types e he => Expr.type_negate.mpr ⟨he, rfl⟩)
        fun _ _ => rfl).mono ?_
      rintro _ type t ht s hkind rfl
      exact ht.skip.congr (by simp [Parser.unary, hkind])
    · refine (unaryOperand_clean tokens ih _ (fun types e he => Expr.type_not.mpr ⟨he, rfl⟩)
        fun _ _ => rfl).mono ?_
      rintro _ type t ht s hkind rfl -
      exact ht.skip.congr (by simp [Parser.unary, hkind])
    · refine (parsePrimary_clean source tokens h).mono fun s type t ht hnot hminus => ht.congr ?_
      simp only [Parser.unary, Parser.run_peek]

/-- The operators of a level give the type that the level says. -/
def Level.Sound (level : Level) : Prop :=
  ∀ kind op left right, level.operator kind = some op → level.accepts left right = true →
    op.type left right = some level.result

/-- The operators of a level, behind a left operand whose code is there. -/
def Continues (q : Expr → Parser Expr) (left : ValueType) (s : Engine) (type : ValueType)
    (t : Engine) : Prop :=
  ∀ e, e.type (typesIn s.vars) = some left →
    ∃ e' rest, q e s.position = some (e', t.position) ∧ e'.type (typesIn s.vars) = some type ∧
      e'.code (slotIn s.vars) = e.code (slotIn s.vars) ++ rest ∧
      s.Grows t rest

private theorem binaryLoop_clean {level : Level} (h : Clean NoError operand (Compiles q))
    (hlevel : level.Sound) (fuel : Nat) (left : ValueType) :
    Clean NoError (binaryLoop tokens operand level fuel left)
      (Continues (Parser.operators tokens q level fuel) left) := by
  induction fuel generalizing left with
  | zero => exact .outOfFuel
  | succ fuel ih =>
    refine (current_clean tokens).bind fun token => ?_
    split
    · next hop =>
      refine .pure ?_
      rintro s _ ⟨rfl, rfl⟩ e he
      refine ⟨e, [], ?_, he, (append_nil _).symm, .refl s⟩
      simp [Parser.operators, hop]
    · next op hop =>
      refine advance_clean.bind fun _ => h.bind fun right => (check_clean tokens _ _).bind fun _ => ?_
      refine (emit_clean tokens _ _).discard.bind fun _ => (ih level.result).mono ?_
      rintro _ type t ht m ⟨_, -, rfl⟩ _ ⟨haccepts, rfl⟩ _ ⟨e', hq, he', hm⟩ s rfl _ ⟨rfl, rfl⟩ e he
      have htype : (Expr.binary op e e').type (typesIn s.vars) = some level.result :=
        Expr.type_binary.mpr ⟨left, right, he, he', hlevel _ op left right hop haccepts⟩
      have hgrows := hm.advanced.emit op.op 0
      rw [Continues, hgrows.vars] at ht
      obtain ⟨e'', rest, hq'', htype'', hcode'', ht''⟩ := ht _ htype
      refine ⟨e'', e'.code (slotIn s.vars) ++ [⟨op.op, 0⟩] ++ rest, ?_, htype'', ?_, ?_⟩
      · rw [Engine.advanced_position] at hq
        simp only [Parser.operators, Parser.run_peek, hop, Parser.run_skip]
        rw [Parser.run_bind hq]
        exact hq''
      · rw [hcode'']
        simp only [Expr.code, append_assoc]
      · exact hgrows.trans ht''

private theorem parseLevel_clean {level : Level} (h : Clean NoError operand (Compiles q))
    (hlevel : level.Sound) (fuel : Nat) : Clean NoError (parseLevel tokens operand level fuel)
      (Compiles (Parser.level tokens q level fuel)) := by
  refine h.bind fun left => (binaryLoop_clean tokens h hlevel fuel left).mono ?_
  rintro m type t ht s ⟨e, hq, he, hm⟩
  rw [Continues, hm.vars] at ht
  obtain ⟨e', rest, hq', he', hcode, ht'⟩ := ht e he
  refine ⟨e', (Parser.run_bind hq).trans hq', he', ?_⟩
  rw [hcode]
  exact hm.trans ht'

private theorem levels_sound : factorLevel.Sound ∧ termLevel.Sound ∧ comparisonLevel.Sound ∧
    equalityLevel.Sound ∧ andLevel.Sound ∧ orLevel.Sound := by
  refine ⟨?_, ?_, ?_, ?_, ?_, ?_⟩ <;> intro kind op left right hop haccepts <;>
    cases kind <;> cases hop <;> cases left <;> cases right <;>
    first
    | rfl
    | exact absurd haccepts (by decide)

/-- `parse_expression`. -/
theorem parseExpression_clean (fuel : Nat) : Clean NoError (parseExpression source tokens fuel)
      (Compiles (Parser.expression source tokens fuel)) := by
  induction fuel with
  | zero => exact .outOfFuel
  | succ fuel ih =>
    obtain ⟨hfactor, hterm, hcomparison, hequality, hand, hor⟩ := levels_sound
    have factor := parseLevel_clean tokens (parseUnary_clean source tokens ih fuel) hfactor fuel
    have term := parseLevel_clean tokens factor hterm fuel
    have comparison := parseLevel_clean tokens term hcomparison fuel
    have equality := parseLevel_clean tokens comparison hequality fuel
    have conjunction := parseLevel_clean tokens equality hand fuel
    exact parseLevel_clean tokens conjunction hor fuel

/-! ### Programs that accept -/

/-- What a part of the compiler did when it returned true and no error was met. -/
def Accepts (x : CompileM Bool) (P : Engine → Engine → Prop) : Prop :=
  Clean NoError x fun s a t => a = true → P s t

namespace Accepts

variable {α : Type} {x rest : CompileM Bool} {P R : Engine → Engine → Prop}

/-- Say less. -/
theorem mono (h : Accepts x P) (hP : ∀ s t, P s t → R s t) : Accepts x R :=
  Clean.mono h fun s _ t ht ha => hP s t (ht ha)

/-- Returning true. -/
theorem accept (h : ∀ s, NoError s → P s s) : Accepts (pure true) P :=
  Clean.pure_of_good fun s hs _ => h s hs

/-- Returning false. -/
theorem refuse : Accepts (pure false) P := Clean.pure fun _ => nofun

/-- One program after another. -/
theorem bind {y : CompileM α} {f : α → CompileM Bool} {Q : Engine → α → Engine → Prop}
    (hy : Clean NoError y Q) (hf : ∀ a, Accepts (f a) fun m t => ∀ s, Q s a m → P s t) :
    Accepts (y >>= f) P :=
  Clean.bind hy fun a => Clean.mono (hf a) fun _ _ _ ht s hs ha => ht ha s hs

/-- What follows when the first part accepts. -/
theorem andThen (hx : Accepts x P) (hrest : Accepts rest fun m t => ∀ s, P s m → R s t) :
    Accepts (andThen x rest) R := by
  refine Clean.bind hx fun a => ?_
  cases a with
  | true => exact Clean.mono hrest fun m _ t ht s hs ha => ht ha s (hs rfl)
  | false => exact Clean.pure fun _ _ _ => nofun

/-- A token that may be there, and what follows. -/
theorem matchKind {kind : TokenKind} {f : Bool → CompileM Bool}
    (hfound : Accepts (f true) fun m t => ∀ s : Engine,
      (tokenAt tokens s.position).kind = kind → m = s.advanced → P s t)
    (hother : Accepts (f false) fun s t => (tokenAt tokens s.position).kind ≠ kind → P s t) :
    Accepts (matchKind tokens kind >>= f) P :=
  matchKind_bind tokens (Clean.mono hfound fun _ _ _ ht s hkind hs ha => ht ha s hkind hs)
    (Clean.mono hother fun _ _ _ ht hkind ha => ht ha hkind)

/-- A token that must be there. -/
theorem expect (kind : TokenKind) (message : String) :
    Accepts (expect tokens kind message) fun s t =>
      (tokenAt tokens s.position).kind = kind ∧ t = s.advanced :=
  (expect_clean tokens kind message).mono fun _ _ _ h _ => h.2

/-- The end of most parts. -/
theorem noError : Accepts noError fun s t => t = s :=
  Clean.of_eq (fun _ => rfl) fun _ h => ⟨h, fun _ => rfl⟩

end Accepts

/-! ### Assignments -/

/-- Every variable has a type. -/
def Engine.Valid (e : Engine) : Prop := ∀ v ∈ e.vars, v.type ≠ .invalid

/-- Without new variables. -/
theorem Engine.Grows.valid {code : List Instruction} (h : s.Grows t code) (hs : s.Valid) :
    t.Valid := by
  rw [Engine.Valid, h.vars]
  exact hs

/-- The code of an assignment was appended. -/
structure Engine.Assigns (s t : Engine) (a : Assignment) : Prop where
  vars : s.vars <+: t.vars
  valid : s.Valid → t.Valid
  loops : t.loops = s.loops
  breakJumps : t.breakJumps = s.breakJumps
  code : ∀ more, t.vars <+: more → t.code = s.code ++ a.code (slotIn more)
  typed : ∀ more, t.vars <+: more → a.Typed (typesIn more)

/-- Behind a token. -/
theorem Engine.Assigns.advanced {a : Assignment} (h : s.advanced.Assigns t a) : s.Assigns t a :=
  ⟨h.vars, h.valid, h.loops, h.breakJumps, h.code, h.typed⟩

/-- Before a token. -/
theorem Engine.Assigns.advance {a : Assignment} (h : s.Assigns t a) : s.Assigns t.advanced a :=
  ⟨h.vars, h.valid, h.loops, h.breakJumps, h.code, h.typed⟩

private theorem endAssignment_accepts (required : Bool) :
    Accepts (endAssignment tokens required) fun s t =>
      Parser.semicolon tokens required s.position = some (⟨⟩, t.position) ∧ s.Grows t [] := by
  cases required with
  | true =>
    refine (Accepts.expect tokens _ _).andThen (Accepts.noError.mono ?_)
    rintro m _ rfl s ⟨hkind, rfl⟩
    exact ⟨Parser.discard_token tokens hkind, (Engine.Grows.refl s).advance⟩
  | false =>
    refine .bind (optional_clean tokens .semicolon) fun _ => Accepts.noError.mono ?_
    rintro m _ rfl s hs
    exact hs

/-- The engine behind a new variable. -/
def Engine.declared (e : Engine) (x : Bytes) (type : ValueType) : Engine :=
  { e with vars := e.vars ++ [⟨x, type⟩] }

private theorem declareVariable_clean (token : Token) (type : ValueType) :
    Clean NoError (declareVariable source token type) fun s a t =>
      a = some s.vars.length ∧ slotOf s.vars (tokenText source token) = none ∧
        t = s.declared (tokenText source token) type := by
  refine .of_run fun s a t hrun ht => ?_
  change (if nameCapacity ≤ token.length then _ else _ : CompileM (Option Nat)) s = _ at hrun
  split_ifs at hrun with hlong hknown hfull <;> cases hrun
  case neg => exact ⟨ht, rfl, Option.not_isSome_iff_eq_none.mp hknown, rfl⟩
  all_goals simp [NoError] at ht

private theorem slotOf_declared (type : ValueType) (hx : slotOf vars x = none) :
    slotOf (vars ++ [⟨x, type⟩]) x = some vars.length := by
  unfold slotOf at hx ⊢
  rw [findIdx?_append, hx]
  simp

private theorem typesIn_declared (type : ValueType) (hx : slotOf vars x = none) :
    typesIn (vars ++ [⟨x, type⟩]) x = some type := by
  simp [typesIn, slotOf_declared type hx]

private theorem declaredType_ne_invalid (kind : TokenKind) : declaredType kind ≠ .invalid := by
  cases kind <;> nofun

private theorem store_code {more : List Variable} {e : Expr} {slot : Nat} (h : vars <+: more)
    (he : e.type (typesIn vars) = some type) (hx : slotOf vars x = some slot) :
    e.code (slotIn vars) ++ [⟨.store, slot⟩] = e.code (slotIn more) ++ [⟨.store, slotIn more x⟩] := by
  rw [e.code_mono h he, slotIn_eq h hx]

/-- `parse_declaration`. -/
theorem parseDeclaration_accepts (fuel : Nat) (required : Bool) :
    Accepts (parseDeclaration source tokens fuel required) fun s t =>
      ∃ a, Parser.declaration source tokens fuel required s.position = some (a, t.position) ∧
        s.Assigns t a := by
  refine .bind (current_clean tokens) fun token => .bind advance_clean fun _ => ?_
  refine (Accepts.expect tokens _ _).andThen ?_
  refine .bind (previous_clean tokens) fun name => .bind (declareVariable_clean source _ _) ?_
  intro slot
  split
  · exact .refuse
  · next slot =>
    refine (Accepts.expect tokens _ _).andThen ?_
    refine .bind (parseExpression_clean source tokens fuel) fun type => ?_
    refine .bind (errorIf_clean _ _ _) fun _ => ?_
    refine .bind (emit_clean tokens _ _).discard fun _ => ?_
    refine (endAssignment_accepts tokens required).mono ?_
    rintro _ t ⟨hsemicolon, ht⟩ _ ⟨_, -, rfl⟩ m ⟨htype, rfl⟩ _ ⟨e, hq, he, hm⟩ _ ⟨hassign, rfl⟩
      _ ⟨hslot, hnew, rfl⟩ _ ⟨rfl, rfl⟩ s ⟨hkind, rfl⟩ s rfl _ ⟨rfl, rfl⟩
    obtain rfl := not_not.mp htype
    obtain rfl := Option.some.inj hslot
    have hgrows := (hm.advanced.emit .store _).trans ht
    have hvars : t.vars = s.vars ++ [⟨tokenText source (tokenAt tokens (s.position + 1)),
      declaredType (tokenAt tokens s.position).kind⟩] := hgrows.vars
    refine ⟨.declare (declaredType (tokenAt tokens s.position).kind)
      (tokenText source (tokenAt tokens (s.position + 1))) e, ?_, ?_, ?_, hgrows.loops,
      hgrows.breakJumps, ?_, ?_⟩
    · rw [Parser.declaration, Parser.run_peek, Parser.run_skip]
      exact (Parser.run_bind (Parser.name_eq source tokens hkind)).trans <|
        (Parser.run_token tokens hassign).trans <| (Parser.run_bind hq).trans <|
        Parser.run_bind hsemicolon
    · exact ⟨_, hvars.symm⟩
    · intro hs v hv
      rw [hvars, mem_append, mem_singleton] at hv
      obtain hv | rfl := hv
      · exact hs v hv
      · exact declaredType_ne_invalid _
    · intro more hmore
      rw [hvars] at hmore
      rw [hgrows.code, append_nil]
      exact congrArg (s.code ++ ·) (store_code hmore he (slotOf_declared _ hnew))
    · intro more hmore
      rw [hvars] at hmore
      exact ⟨typesIn_mono hmore (typesIn_declared _ hnew), e.type_mono hmore he⟩

private theorem compoundOperator_type {kind : TokenKind} {op : Binary}
    (h : compoundOperator kind = some op) : op.type .integer .integer = some .integer := by
  cases kind <;> cases h <;> rfl

/-- `parse_assignment`. -/
theorem parseAssignment_accepts (fuel : Nat) (required : Bool) :
    Accepts (parseAssignment source tokens fuel required) fun s t =>
      ∃ a, Parser.assignment source tokens fuel required s.position = some (a, t.position) ∧
        s.Assigns t a := by
  refine (Accepts.expect tokens _ _).andThen ?_
  refine .bind (previous_clean tokens) fun name => .bind Clean.get fun engine => ?_
  dsimp only
  split
  · exact setError_return
  · next slot hslot =>
    refine .bind (current_clean tokens) fun operator => ?_
    split
    · next hassign =>
      refine .bind advance_clean fun _ =>
        .bind (parseExpression_clean source tokens fuel) fun type => ?_
      refine .bind (errorIf_clean _ _ _) fun _ => .bind (emit_clean tokens _ _).discard fun _ => ?_
      refine (endAssignment_accepts tokens required).mono ?_
      rintro _ t ⟨hsemicolon, ht⟩ _ ⟨_, -, rfl⟩ m ⟨htype, rfl⟩ _ ⟨e, hq, he, hm⟩ _ rfl
        _ ⟨rfl, rfl⟩ _ ⟨rfl, rfl⟩ _ ⟨rfl, rfl⟩ s ⟨hkind, rfl⟩
      have hgrows := ((hm.advanced.emit .store _).trans ht).advanced
      have hvars : t.vars = s.vars := hgrows.vars
      obtain rfl := not_not.mp htype
      refine ⟨.assign (tokenText source (tokenAt tokens s.position)) e, ?_,
        hvars ▸ prefix_refl _, hgrows.valid, hgrows.loops, hgrows.breakJumps, ?_, ?_⟩
      · refine (Parser.run_bind (Parser.name_eq source tokens hkind)).trans ?_
        rw [Engine.advanced_position] at hassign
        simp only [Parser.run_peek]
        rw [if_pos hassign, Parser.run_skip]
        exact (Parser.run_bind hq).trans (Parser.run_bind hsemicolon)
      · intro more hmore
        rw [hvars] at hmore
        rw [hgrows.code, append_nil]
        exact congrArg (s.code ++ ·) (store_code hmore he hslot)
      · intro more hmore
        rw [hvars] at hmore
        refine ⟨_, typesIn_mono hmore (Option.map_eq_some_iff.mpr ⟨slot, hslot, rfl⟩),
          e.type_mono hmore he⟩
    · next hassign =>
      split
      · exact setError_return
      · next op hop =>
        refine .bind advance_clean fun _ => ?_
        split
        · exact setError_return
        · next hinteger =>
          refine .bind (emit_clean tokens _ _).discard fun _ => ?_
          refine .bind (parseExpression_clean source tokens fuel) fun type => ?_
          refine .bind (errorIf_clean _ _ _) fun _ =>
            .bind (emit_clean tokens _ _).discard fun _ => ?_
          refine .bind (emit_clean tokens _ _).discard fun _ => ?_
          refine (endAssignment_accepts tokens required).mono ?_
          rintro _ t ⟨hsemicolon, ht⟩ _ ⟨_, -, rfl⟩ _ ⟨_, -, rfl⟩ m ⟨htype, rfl⟩ _ ⟨e, hq, he, hm⟩
            _ ⟨_, -, rfl⟩ _ rfl _ ⟨rfl, rfl⟩ _ ⟨rfl, rfl⟩ _ ⟨rfl, rfl⟩ s ⟨hkind, rfl⟩
          have hload := (Engine.Grows.refl s).advance.advance.emit .load slot
          have hgrows := ((hload.trans hm).emit op.op 0).emit .store slot |>.trans ht
          have hvars : t.vars = s.vars := hgrows.vars
          obtain rfl := not_not.mp htype
          have htyped : typesIn s.vars (tokenText source (tokenAt tokens s.position)) =
              some .integer := Option.map_eq_some_iff.mpr ⟨slot, hslot, not_not.mp hinteger⟩
          refine ⟨.compound (tokenText source (tokenAt tokens s.position)) op e, ?_,
            hvars ▸ prefix_refl _, hgrows.valid, hgrows.loops, hgrows.breakJumps, ?_, ?_⟩
          · refine (Parser.run_bind (Parser.name_eq source tokens hkind)).trans ?_
            rw [Engine.advanced_position] at hassign hop
            simp only [Parser.run_peek]
            rw [if_neg hassign]
            simp only [hop, Parser.run_skip]
            exact (Parser.run_bind hq).trans (Parser.run_bind hsemicolon)
          · intro more hmore
            rw [hvars] at hmore
            have hcode := e.code_mono hmore he
            have hslots : slotIn more (tokenText source (tokenAt tokens s.position)) = slot :=
              slotIn_eq hmore hslot
            rw [hgrows.code, Assignment.code, hslots, hcode]
            simp
          · intro more hmore
            rw [hvars] at hmore
            exact ⟨typesIn_mono hmore htyped, e.type_mono hmore he, compoundOperator_type hop⟩

end

end NasuaOS.SuaScript
