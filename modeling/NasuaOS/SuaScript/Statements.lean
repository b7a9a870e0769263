import NasuaOS.SuaScript.Translation

/-!
# The code of statements

Jumps out of a loop are emitted with the target 0 and recorded, and the end of the loop patches those
recorded since its start. Each kind of statement has a lemma about what it appends; the functions of
the compiler are then read off them. At the end, a source that is accepted has a tree with types, and
the code is the code of the tree.
-/

namespace NasuaOS.SuaScript

open Base List

section

variable (source : Bytes) (tokens : List Token)

/-! ### Patches -/

variable {front : List Instruction} {expression : CompileM ValueType} {q : Parser Expr}
  {block : CompileM Bool} {r : Parser Stmt}

private theorem patchCode_eq {code back : List Instruction} {op : Op} {operand : Int} {k : Nat}
    (hcode : code = front ++ ⟨op, operand⟩ :: back) (hk : front.length = k) (target : Nat) :
    patchCode code k target = front ++ ⟨op, target⟩ :: back := by
  subst hcode hk
  induction front with
  | nil => rfl
  | cons i front ih =>
    rw [length_cons, cons_append, cons_append]
    exact congrArg (i :: ·) ih

private theorem Stmt.patch_breaks (slot : Bytes → Nat) (again target : Nat) (p : Stmt)
    {base : Nat} (hbase : front.length = base) (back : List Instruction) :
    (p.breaks base).foldl (fun code i => patchCode code i target)
        (front ++ p.code slot again 0 base ++ back) =
      front ++ p.code slot again target base ++ back := by
  induction p generalizing front base back with
  | skip | assignment | print | whileDo | forDo | continueLoop => rfl
  | breakLoop =>
    simp only [breaks, code, foldl_cons, foldl_nil, append_assoc,
      singleton_append]
    exact patchCode_eq rfl hbase _
  | seq first rest ihf ihr =>
    have hf := ihf hbase (rest.code slot again 0 (base + first.size) ++ back)
    have hr := @ihr (front ++ first.code slot again target base) (base + first.size)
      (by simp [hbase]) back
    simp only [breaks, code, foldl_append, append_assoc] at hf hr ⊢
    rw [hf, hr]
  | ifThen c body ih =>
    have hb (i : Instruction) := @ih (front ++ c.code slot ++ [i]) (base + c.size + 1)
      (by simp [hbase]; omega) back
    simp only [breaks, code, append_assoc, cons_append, nil_append] at hb ⊢
    exact hb _
  | ifElse c body other ihb iho =>
    have hb (i : Instruction) (after : List Instruction) :=
      @ihb (front ++ c.code slot ++ [i]) (base + c.size + 1) (by simp [hbase]; omega) after
    have ho (i j : Instruction) := @iho (front ++ c.code slot ++ i ::
      body.code slot again target (base + c.size + 1) ++ [j])
      (base + c.size + 1 + body.size + 1) (by simp [hbase]; omega) back
    simp only [breaks, code, foldl_append, append_assoc, cons_append,
      nil_append] at hb ho ⊢
    rw [hb, ho]

/-! ### Statements -/

/-- Where the loop around is continued. -/
def Engine.again (e : Engine) : Nat := (e.loops.headD ⟨0, 0⟩).continueTarget

/-- The code of a statement was appended; its jumps out of the loop around are recorded. -/
structure Engine.Appends (s t : Engine) (p : Stmt) : Prop where
  vars : s.vars <+: t.vars
  valid : s.Valid → t.Valid
  loops : t.loops = s.loops
  breakJumps : t.breakJumps = s.breakJumps ++ p.breaks s.code.length
  code : ∀ more, t.vars <+: more →
    t.code = s.code ++ p.code (slotIn more) s.again 0 s.code.length
  typed : ∀ more, t.vars <+: more → p.Typed (typesIn more) !s.loops.isEmpty

/-- The engine with a jump patched. -/
def Engine.patched (e : Engine) (i target : Nat) : Engine :=
  { e with code := patchCode e.code i target }

/-- The engine inside a loop. -/
def Engine.entered (e : Engine) (target : Nat) : Engine :=
  { e with loops := ⟨target, e.breakJumps.length⟩ :: e.loops }

/-- The engine behind a loop. -/
def Engine.left (e : Engine) (target : Nat) : Engine :=
  { e with
    code := (e.breakJumps.drop (e.loops.headD ⟨0, 0⟩).breakStart).foldl
      (fun code i => patchCode code i target) e.code
    breakJumps := e.breakJumps.take (e.loops.headD ⟨0, 0⟩).breakStart
    loops := e.loops.tail }

/-- The engine behind a loop, from the one behind its body. -/
def Engine.closed (e : Engine) (again k target : Nat) : Engine :=
  ((e.emitted .jump again).patched k target).left target

private theorem patch_clean (i : Option Nat) (target : Nat) :
    Clean NoError (patch i target) fun s _ t => ∀ k, i = some k → t = s.patched k target := by
  cases i with
  | none => exact .pure fun _ => nofun
  | some k => exact .of_eq (fun _ => rfl) fun s h => ⟨h, fun _ hk => Option.some.inj hk ▸ rfl⟩

private theorem codeCount_clean : Clean NoError codeCount fun s a t => a = s.code.length ∧ t = s :=
  .of_eq (fun _ => rfl) fun _ h => ⟨h, rfl, rfl⟩

private theorem beginLoop_accepts (target : Nat) :
    Accepts (beginLoop tokens target) fun s t => t = s.entered target := by
  refine Clean.of_run fun s a t hrun ht => ?_
  change (if maxLoopDepth ≤ s.loops.length then _ else _ : CompileM Bool) s = _ at hrun
  split at hrun <;> cases hrun
  · simp [NoError] at ht
  · exact ⟨ht, fun _ => rfl⟩

private theorem endLoop_accepts (target : Nat) :
    Accepts (endLoop target) fun s t => t = s.left target := by
  refine Clean.of_run fun s a t hrun ht => ?_
  cases hrun
  exact ⟨ht, fun _ => rfl⟩

private theorem closeLoop_accepts (again : Nat) (exitJump : Option Nat) :
    Accepts (do
      discard (emit tokens .jump again)
      patch exitJump (← codeCount)
      endLoop (← codeCount)) fun s t =>
        ∀ k, exitJump = some k → t = s.closed again k (s.code.length + 1) := by
  refine .bind (emit_clean tokens _ _).discard fun _ => ?_
  refine .bind codeCount_clean fun last => .bind (patch_clean _ _) fun _ => ?_
  refine .bind codeCount_clean fun target => (endLoop_accepts target).mono ?_
  rintro p _ rfl _ ⟨rfl, rfl⟩ _ hp _ ⟨rfl, rfl⟩ s ⟨_, -, rfl⟩ k rfl
  rw [hp k rfl]
  simp [Engine.closed, Engine.patched, patchCode]

namespace Engine.Appends

variable {s m b t : Engine} {p r body other : Stmt} {c e : Expr}

private theorem advanced (h : s.advanced.Appends t p) : s.Appends t p :=
  ⟨h.vars, h.valid, h.loops, h.breakJumps, h.code, h.typed⟩

private theorem grow (h : s.Appends m p) (h' : m.Grows t []) : s.Appends t p where
  vars := h'.vars ▸ h.vars
  valid := fun hs => h'.valid (h.valid hs)
  loops := h'.loops.trans h.loops
  breakJumps := h'.breakJumps.trans h.breakJumps
  code := fun more hmore => by rw [h'.code, append_nil, h.code more (h'.vars ▸ hmore)]
  typed := fun more hmore => h.typed more (h'.vars ▸ hmore)

private theorem advance (h : s.Appends t p) : s.Appends t.advanced p :=
  h.grow (Engine.Grows.refl t).advance

private theorem of_grows {code : List Instruction} (h : s.Grows t code)
    (hbreaks : p.breaks s.code.length = [])
    (hcode : ∀ more, s.vars <+: more → code = p.code (slotIn more) s.again 0 s.code.length)
    (htyped : ∀ more, s.vars <+: more → p.Typed (typesIn more) !s.loops.isEmpty) :
    s.Appends t p where
  vars := h.vars ▸ prefix_refl _
  valid := h.valid
  loops := h.loops
  breakJumps := by rw [h.breakJumps, hbreaks, append_nil]
  code := fun more hmore => by rw [h.code, hcode more (h.vars ▸ hmore)]
  typed := fun more hmore => htyped more (h.vars ▸ hmore)

private theorem skip (s : Engine) : s.Appends s .skip :=
  .of_grows (.refl s) rfl (fun _ _ => rfl) fun _ _ => trivial

private theorem seq (h : s.Appends m p) (h' : m.Appends t r) : s.Appends t (.seq p r) where
  vars := h.vars.trans h'.vars
  valid := fun hs => h'.valid (h.valid hs)
  loops := h'.loops.trans h.loops
  breakJumps := by
    rw [h'.breakJumps, h.breakJumps, h.code m.vars (prefix_refl _)]
    simp [Stmt.breaks]
  code := by
    intro more hmore
    have hm := h.code more (h'.vars.trans hmore)
    rw [h'.code more hmore, Engine.again, h.loops, hm]
    simp [Stmt.code, Engine.again]
  typed := by
    intro more hmore
    refine ⟨h.typed more (h'.vars.trans hmore), ?_⟩
    rw [← h.loops]
    exact h'.typed more hmore

private theorem assignment {a : Assignment} (h : s.Assigns t a) : s.Appends t (.assignment a) where
  vars := h.vars
  valid := h.valid
  loops := h.loops
  breakJumps := by simp [h.breakJumps, Stmt.breaks]
  code := h.code
  typed := h.typed

private theorem print {type : ValueType} (h : s.Grows t (e.code (slotIn s.vars) ++ [⟨.print, 0⟩]))
    (he : e.type (typesIn s.vars) = some type) : s.Appends t (.print e) :=
  .of_grows h rfl (fun more hmore => by rw [Stmt.code, e.code_mono hmore he])
    fun more hmore => ⟨type, e.type_mono hmore he⟩

private theorem length_condition {i : Instruction}
    (hm : s.Grows m (c.code (slotIn s.vars) ++ [i])) :
    m.code.length = s.code.length + c.size + 1 := by
  rw [hm.code]
  simp
  omega

variable {more : List Variable} {n : Engine}

private theorem code_condition {i : Instruction} (hm : s.Grows m (c.code (slotIn s.vars) ++ [i]))
    (hc : c.type (typesIn s.vars) = some .boolean) (hb : m.Appends b body) (hmore : b.vars <+: more) :
    b.code = (s.code ++ c.code (slotIn more)) ++
      i :: body.code (slotIn more) s.again 0 (s.code.length + c.size + 1) := by
  have hvars : s.vars <+: more := hm.vars ▸ hb.vars.trans hmore
  rw [hb.code more hmore, Engine.again, hm.loops, length_condition hm, hm.code,
    c.code_mono hvars hc]
  simp [Engine.again]

section

variable (hm : s.Grows m (c.code (slotIn s.vars) ++ [⟨.jumpIfFalse, 0⟩]))

include hm

section

variable (hc : c.type (typesIn s.vars) = some .boolean)

include hc

private theorem ifThen (hb : m.Appends b body) :
    s.Appends (b.patched (s.code.length + c.size) b.code.length) (.ifThen c body) where
  vars := hm.vars ▸ hb.vars
  valid := fun hs => hb.valid (hm.valid hs)
  loops := hb.loops.trans hm.loops
  breakJumps := by
    change b.breakJumps = _
    rw [hb.breakJumps, hm.breakJumps, length_condition hm]
    rfl
  code := by
    intro more hmore
    have hcode := code_condition hm hc hb hmore
    have hlen : b.code.length = s.code.length + c.size + 1 + body.size := by
      rw [hcode]
      simp
      omega
    change patchCode b.code _ _ = _
    rw [hlen, patchCode_eq hcode (by simp)]
    simp [Stmt.code]
  typed := by
    intro more hmore
    refine ⟨c.type_mono (hm.vars ▸ hb.vars.trans hmore) hc, ?_⟩
    rw [← hm.loops]
    exact hb.typed more hmore

private theorem code_branch (hb : m.Appends b body) (hn : b.Grows n [⟨.jump, 0⟩])
    (hmore : b.vars <+: more) :
    (n.patched (s.code.length + c.size) n.code.length).code = (s.code ++ c.code (slotIn more)) ++
      ⟨.jumpIfFalse, ↑(s.code.length + c.size + 1 + body.size + 1)⟩ ::
        (body.code (slotIn more) s.again 0 (s.code.length + c.size + 1) ++ [⟨.jump, 0⟩]) := by
  have hcode := code_condition hm hc hb hmore
  have hlen : n.code.length = s.code.length + c.size + 1 + body.size + 1 := by
    rw [hn.code, hcode]
    simp
    omega
  have hshape := hn.code
  change patchCode n.code _ _ = _
  rw [hcode, append_assoc, cons_append] at hshape
  rw [hlen, patchCode_eq hshape (by simp)]

private theorem ifElse (hb : m.Appends b body) (hn : b.Grows n [⟨.jump, 0⟩])
    (ho : (n.patched (s.code.length + c.size) n.code.length).Appends t other) :
    s.Appends (t.patched b.code.length t.code.length) (.ifElse c body other) := by
  have hlen : (n.patched (s.code.length + c.size) n.code.length).code.length =
      s.code.length + c.size + 1 + body.size + 1 := by
    rw [code_branch hm hc hb hn (prefix_refl _)]
    simp
    omega
  have hloops : n.loops = s.loops := hn.loops.trans (hb.loops.trans hm.loops)
  have hagain : (n.patched (s.code.length + c.size) n.code.length).again = s.again :=
    congrArg (fun loops : List LoopContext => (loops.headD ⟨0, 0⟩).continueTarget) hloops
  have hbt : b.vars <+: t.vars := hn.vars ▸ ho.vars
  constructor
  · exact hm.vars ▸ hb.vars.trans hbt
  · exact fun hs => ho.valid (hn.valid (hb.valid (hm.valid hs)))
  · exact ho.loops.trans hloops
  · change t.breakJumps = _
    rw [ho.breakJumps, hlen]
    change n.breakJumps ++ _ = _
    rw [hn.breakJumps, hb.breakJumps, hm.breakJumps, length_condition hm, append_assoc]
    rfl
  · intro more hmore
    have hcode := code_branch hm hc hb hn (hbt.trans hmore)
    have hblen : b.code.length = s.code.length + c.size + 1 + body.size := by
      rw [code_condition hm hc hb (hbt.trans hmore)]
      simp
      omega
    have htcode := ho.code more hmore
    rw [hlen, hagain, hcode] at htcode
    have htlen : t.code.length = s.code.length + c.size + 1 + body.size + 1 + other.size := by
      rw [htcode]
      simp
      omega
    have hshape : t.code = (s.code ++ c.code (slotIn more) ++
        ⟨.jumpIfFalse, ↑(s.code.length + c.size + 1 + body.size + 1)⟩ ::
          body.code (slotIn more) s.again 0 (s.code.length + c.size + 1)) ++
        ⟨.jump, 0⟩ :: other.code (slotIn more) s.again 0
          (s.code.length + c.size + 1 + body.size + 1) := by
      rw [htcode]
      simp
    change patchCode t.code _ _ = _
    rw [htlen, hblen, patchCode_eq hshape (by simp; omega)]
    simp [Stmt.code]
  · intro more hmore
    refine ⟨c.type_mono (hm.vars ▸ hb.vars.trans (hbt.trans hmore)) hc, ?_, ?_⟩
    · rw [← hm.loops]
      exact hb.typed more (hbt.trans hmore)
    · rw [← hloops]
      exact ho.typed more hmore

end

end

private theorem closed {l : Engine} {front back : List Instruction} {k again : Nat}
    (hl : l.code = front ++ ⟨.jumpIfFalse, 0⟩ :: back) (hk : front.length = k)
    (hb : (l.entered again).Appends b body) (hmore : b.vars <+: more) (target : Nat) :
    (b.closed again k target).code = front ++ ⟨.jumpIfFalse, target⟩ :: back ++
        body.code (slotIn more) again target l.code.length ++ [⟨.jump, again⟩] ∧
      (b.closed again k target).breakJumps = l.breakJumps ∧
      (b.closed again k target).loops = l.loops := by
  have hloops : b.loops = ⟨again, l.breakJumps.length⟩ :: l.loops := hb.loops
  have hbreaks : b.breakJumps = l.breakJumps ++ body.breaks l.code.length := hb.breakJumps
  have hcode : (b.emitted .jump again).code = front ++ ⟨.jumpIfFalse, 0⟩ ::
      (back ++ body.code (slotIn more) again 0 l.code.length ++ [⟨.jump, again⟩]) := by
    rw [Engine.emitted_code, hb.code more hmore]
    change l.code ++ body.code (slotIn more) again 0 l.code.length ++ _ = _
    rw [hl]
    simp
  have hpatched := patchCode_eq hcode hk target
  have hpatch := body.patch_breaks (slotIn more) again target
    (show (front ++ ⟨.jumpIfFalse, target⟩ :: back).length = l.code.length by rw [hl]; simp)
    [⟨.jump, again⟩]
  refine ⟨?_, ?_, ?_⟩
  · simp only [Engine.closed, Engine.left, Engine.patched, Engine.emitted_breakJumps,
      Engine.emitted_loops, hloops, hbreaks, headD_cons, drop_left, hpatched]
    rw [← hpatch]
    simp
  · simp [Engine.closed, Engine.left, Engine.patched, hloops, hbreaks]
  · simp [Engine.closed, Engine.left, Engine.patched, hloops]

private theorem whileDo {target : Nat} (hm : s.Grows m (c.code (slotIn s.vars) ++ [⟨.jumpIfFalse, 0⟩]))
    (hc : c.type (typesIn s.vars) = some .boolean) (hb : (m.entered s.code.length).Appends b body)
    (htarget : target = s.code.length + c.size + 1 + body.size + 1) :
    s.Appends (b.closed s.code.length (s.code.length + c.size) target) (.whileDo c body) := by
  have hvars : s.vars <+: b.vars := hm.vars ▸ hb.vars
  have hfront : m.code = (s.code ++ c.code (slotIn s.vars)) ++ [⟨.jumpIfFalse, 0⟩] := by
    rw [hm.code, append_assoc]
  have hclosed (more : List Variable) (hmore : b.vars <+: more) :=
    closed hfront (show _ = s.code.length + c.size by simp) hb hmore target
  constructor
  · exact hvars
  · exact fun hs => hb.valid (hm.valid hs)
  · exact (hclosed _ (prefix_refl _)).2.2.trans hm.loops
  · rw [(hclosed _ (prefix_refl _)).2.1, hm.breakJumps]
    exact (append_nil _).symm
  · intro more hmore
    rw [(hclosed more hmore).1, length_condition hm, htarget, ← c.code_mono (hvars.trans hmore) hc]
    simp [Stmt.code]
  · intro more hmore
    exact ⟨c.type_mono (hvars.trans hmore) hc, hb.typed more hmore⟩

private theorem code_header {i : Engine} {initial increment : Assignment} (hi : s.Assigns i initial)
    (hm : i.Grows m (c.code (slotIn i.vars) ++ [⟨.jumpIfFalse, 0⟩, ⟨.jump, 0⟩]))
    (hc : c.type (typesIn i.vars) = some .boolean) (hn : m.Assigns n increment)
    (hmore : n.vars <+: more) (start : Nat) :
    ((n.emitted .jump i.code.length).patched (i.code.length + c.size + 1) start).code =
      (s.code ++ initial.code (slotIn more) ++ c.code (slotIn more)) ++ ⟨.jumpIfFalse, 0⟩ ::
        ⟨.jump, start⟩ :: (increment.code (slotIn more) ++ [⟨.jump, i.code.length⟩]) := by
  have him : i.vars <+: more := hm.vars ▸ hn.vars.trans hmore
  have hicode := hi.code more him
  have hcode : (n.emitted .jump i.code.length).code =
      (i.code ++ c.code (slotIn more) ++ [⟨.jumpIfFalse, 0⟩]) ++ ⟨.jump, 0⟩ ::
        (increment.code (slotIn more) ++ [⟨.jump, i.code.length⟩]) := by
    rw [Engine.emitted_code, hn.code more hmore, hm.code, c.code_mono him hc]
    simp
  refine (patchCode_eq hcode (by simp; omega) start).trans ?_
  rw [hicode]
  simp

private theorem forDo {i : Engine} {initial increment : Assignment} {start target : Nat}
    (hi : s.Assigns i initial)
    (hm : i.Grows m (c.code (slotIn i.vars) ++ [⟨.jumpIfFalse, 0⟩, ⟨.jump, 0⟩]))
    (hc : c.type (typesIn i.vars) = some .boolean) (hn : m.Assigns n increment)
    (hb : (((n.emitted .jump i.code.length).patched (i.code.length + c.size + 1)
      start).entered m.code.length).Appends b body) (hstart : start = n.code.length + 1)
    (htarget : target = start + body.size + 1) :
    s.Appends (b.closed m.code.length (i.code.length + c.size) target)
      (.forDo initial c increment body) := by
  have hnb : n.vars <+: b.vars := hb.vars
  have hib : i.vars <+: b.vars := hm.vars ▸ hn.vars.trans hnb
  have hvars : s.vars <+: b.vars := hi.vars.trans hib
  have hilen : i.code.length = s.code.length + initial.size := by
    rw [hi.code _ (prefix_refl _)]
    simp
  have hmlen : m.code.length = i.code.length + c.size + 2 := by
    rw [hm.code]
    simp
    omega
  have hnlen : n.code.length = m.code.length + increment.size := by
    rw [hn.code _ (prefix_refl _)]
    simp
  have hfront (more : List Variable) (hmore : b.vars <+: more) :=
    code_header hi hm hc hn (hnb.trans hmore) start
  have hclosed (more : List Variable) (hmore : b.vars <+: more) :=
    closed (hfront more hmore) (show _ = i.code.length + c.size by simp [hilen, Nat.add_assoc])
      hb hmore target
  constructor
  · exact hvars
  · exact fun hs => hb.valid (hn.valid (hm.valid (hi.valid hs)))
  · refine (hclosed _ (prefix_refl _)).2.2.trans ?_
    exact hn.loops.trans (hm.loops.trans hi.loops)
  · rw [(hclosed _ (prefix_refl _)).2.1]
    refine Eq.trans ?_ (append_nil _).symm
    exact hn.breakJumps.trans (hm.breakJumps.trans hi.breakJumps)
  · intro more hmore
    have hlen : ((n.emitted .jump i.code.length).patched (i.code.length + c.size + 1)
        start).code.length = start := by
      rw [hfront more hmore]
      simp
      omega
    rw [(hclosed more hmore).1, hlen]
    simp only [Stmt.code, ← hilen, ← hmlen, ← hnlen, ← hstart, ← htarget]
    simp
  · intro more hmore
    exact ⟨hi.typed more (hib.trans hmore), c.type_mono (hib.trans hmore) hc,
      hn.typed more (hnb.trans hmore), hb.typed more hmore⟩

private theorem breakLoop (h : s.Grows t [⟨.jump, 0⟩]) (hloops : s.loops ≠ []) (u : Engine)
    (hu : u = { t with breakJumps := t.breakJumps ++ [s.code.length] }) :
    s.Appends u .breakLoop := by
  subst hu
  constructor
  · exact h.vars ▸ prefix_refl _
  · exact h.valid
  · exact h.loops
  · exact congrArg (· ++ [s.code.length]) h.breakJumps
  · exact fun _ _ => h.code
  · intro more hmore
    simp [Stmt.Typed, hloops]

private theorem continueLoop {loop : LoopContext} {outer : List LoopContext}
    (hloops : s.loops = loop :: outer) (h : s.Grows t [⟨.jump, loop.continueTarget⟩]) :
    s.Appends t .continueLoop :=
  .of_grows h rfl (fun _ _ => by simp [Stmt.code, Engine.again, hloops])
    fun _ _ => by simp [Stmt.Typed, hloops]

end Engine.Appends

/-- The engine behind the code of the statement that a parser reads. -/
def Translates (q : Parser Stmt) (s t : Engine) : Prop :=
  ∃ p, q s.position = some (p, t.position) ∧ s.Appends t p

private theorem statements_accepts {statement : CompileM Bool} {q : Parser Stmt}
    (h : Accepts statement (Translates q)) (ends : TokenKind → Bool) (fuel : Nat) :
    Accepts (statements tokens statement ends fuel)
      (Translates (Parser.list tokens q ends fuel)) := by
  induction fuel with
  | zero => exact Clean.outOfFuel
  | succ fuel ih =>
    refine .bind (current_clean tokens) fun token => .bind Clean.get fun engine => ?_
    split
    · next hstop =>
      refine .accept ?_
      rintro s hs _ ⟨rfl, rfl⟩ _ ⟨rfl, rfl⟩
      have hends : ends (tokenAt tokens s.position).kind = true :=
        hstop.resolve_right (by simp [hs])
      refine ⟨.skip, ?_, .skip s⟩
      simp [Parser.list, hends]
    · next hgo =>
      refine h.andThen (.bind Clean.get fun later => ?_)
      split
      · exact setError_return
      · refine ih.mono ?_
        rintro m t ⟨r, hr, ht⟩ _ ⟨rfl, rfl⟩ s ⟨p, hp, hm⟩ _ ⟨rfl, rfl⟩ _ ⟨rfl, rfl⟩
        refine ⟨.seq p r, ?_, hm.seq ht⟩
        have hends : ¬ends (tokenAt tokens s.position).kind = true := fun hends => hgo (.inl hends)
        simp only [Parser.list, Parser.run_peek]
        rw [if_neg hends]
        exact (Parser.run_bind hp).trans (Parser.run_bind hr)

private theorem parseBlock_accepts {statement : CompileM Bool} {q : Parser Stmt}
    (h : Accepts statement (Translates q)) (fuel : Nat) :
    Accepts (parseBlock tokens statement fuel) (Translates (Parser.block tokens q fuel)) := by
  refine (Accepts.expect tokens _ _).andThen ?_
  refine (statements_accepts tokens h endsBlock fuel).andThen ?_
  refine (Accepts.expect tokens _ _).mono ?_
  rintro m _ ⟨hclose, rfl⟩ _ ⟨p, hp, hm⟩ s ⟨hopen, rfl⟩
  refine ⟨p, ?_, hm.advanced.advance⟩
  exact (Parser.run_token tokens hopen).trans <| (Parser.run_bind hp).trans <|
    Parser.run_token tokens hclose

private theorem parseIfTail_accepts (hexpression : Clean NoError expression (Compiles q))
    (hblock : Accepts block (Translates r)) (fuel : Nat) :
    Accepts (parseIfTail tokens expression block fuel)
      (Translates (Parser.conditional tokens q r fuel)) := by
  induction fuel with
  | zero => exact Clean.outOfFuel
  | succ fuel ih =>
    refine (Accepts.expect tokens _ _).andThen (.bind hexpression fun type => ?_)
    refine .bind (check_clean tokens _ _) fun _ => (Accepts.expect tokens _ _).andThen ?_
    refine .bind (emit_clean tokens _ _) fun falseJump => hblock.andThen ?_
    refine .matchKind tokens ?_ ?_
    · rw [if_pos rfl]
      refine .bind (emit_clean tokens _ _) fun endJump => .bind codeCount_clean fun second => ?_
      refine .bind (patch_clean _ _) fun _ => ?_
      have hother : Accepts (do
          if ← matchKind tokens .ifKeyword then parseIfTail tokens expression block fuel
          else block) (Translates
            (Parser.alternative tokens (Parser.conditional tokens q r fuel) r)) := by
        refine .matchKind tokens ?_ ?_
        · rw [if_pos rfl]
          refine ih.mono ?_
          rintro _ t ⟨p, hp, ht⟩ s hkind rfl
          refine ⟨p, ?_, ht.advanced⟩
          rw [Parser.alternative, Parser.run_peek, if_pos hkind]
          exact hp
        · rw [if_neg (by decide)]
          refine hblock.mono ?_
          rintro s t ⟨p, hp, ht⟩ hkind
          refine ⟨p, ?_, ht⟩
          rw [Parser.alternative, Parser.run_peek, if_neg hkind]
          exact hp
      refine hother.andThen (.bind codeCount_clean fun last => .bind (patch_clean _ _) fun _ => ?_)
      refine Accepts.noError.mono ?_
      rintro t _ rfl o ht _ ⟨rfl, rfl⟩ n ⟨other, hother, ho⟩ _ hn _ ⟨rfl, rfl⟩ b ⟨rfl, rfl⟩
        _ helse rfl m ⟨body, hbody, hb⟩ _ ⟨rfl, rfl⟩ _ ⟨hclose, rfl⟩ _ ⟨htype, rfl⟩
        a ⟨c, hc, hctype, ha⟩ s ⟨hopen, rfl⟩
      obtain rfl := eq_of_beq htype
      obtain rfl := ht _ rfl
      have hpatched := hn _ rfl
      rw [Engine.advanced_code, ha.advanced.length_code] at hpatched
      subst hpatched
      refine ⟨.ifElse c body other, ?_, .ifElse (ha.advanced.advance.emit _ _) hctype hb.advance
        ((Engine.Grows.refl _).emit _ _) ho⟩
      refine (Parser.run_token tokens hopen).trans <| (Parser.run_bind hc).trans <|
        (Parser.run_token tokens hclose).trans <| (Parser.run_bind hbody).trans ?_
      rw [Parser.run_peek, if_pos helse, Parser.run_skip]
      exact Parser.run_bind hother
    · rw [if_neg (by decide)]
      refine .bind codeCount_clean fun last => .bind (patch_clean _ _) fun _ => ?_
      refine Accepts.noError.mono ?_
      rintro t _ rfl b ht _ ⟨rfl, rfl⟩ helse _ ⟨body, hbody, hb⟩ _ ⟨rfl, rfl⟩ a ⟨hclose, rfl⟩
        _ ⟨htype, rfl⟩ _ ⟨c, hc, hctype, ha⟩ s ⟨hopen, rfl⟩
      obtain rfl := eq_of_beq htype
      have hpatched := ht _ rfl
      rw [Engine.advanced_code, ha.advanced.length_code] at hpatched
      refine ⟨.ifThen c body, ?_, hpatched ▸ .ifThen (ha.advanced.advance.emit _ _) hctype hb⟩
      refine (Parser.run_token tokens hopen).trans <| (Parser.run_bind hc).trans <|
        (Parser.run_token tokens hclose).trans <| (Parser.run_bind hbody).trans ?_
      rw [Parser.run_peek, if_neg helse, hpatched]
      rfl

private theorem parseWhile_accepts (hexpression : Clean NoError expression (Compiles q))
    (hblock : Accepts block (Translates r)) :
    Accepts (parseWhile tokens expression block) (Translates (Parser.whileLoop tokens q r)) := by
  refine .bind advance_clean fun _ => .bind codeCount_clean fun start => ?_
  refine (Accepts.expect tokens _ _).andThen (.bind hexpression fun type => ?_)
  refine .bind (check_clean tokens _ _) fun _ => (Accepts.expect tokens _ _).andThen ?_
  refine .bind (emit_clean tokens _ _) fun exitJump => (beginLoop_accepts tokens _).andThen ?_
  refine hblock.andThen ((closeLoop_accepts tokens _ _).mono ?_)
  rintro b t ht _ ⟨body, hbody, hb⟩ _ rfl _ ⟨rfl, rfl⟩ _ ⟨hclose, rfl⟩ m ⟨htype, rfl⟩
    _ ⟨c, hc, hctype, hm⟩ _ ⟨hopen, rfl⟩ _ ⟨rfl, rfl⟩ s rfl
  obtain rfl := eq_of_beq htype
  have hm := hm.advanced.advanced
  have hclosed := ht _ rfl
  rw [Engine.advanced_code, Engine.advanced_code, hm.length_code] at hclosed
  have hlen : b.code.length = s.code.length + c.size + 1 + body.size := by
    rw [hb.code _ (prefix_refl _)]
    simp [Engine.entered, hm.length_code]
    omega
  refine ⟨.whileDo c body, ?_, ?_⟩
  · rw [Parser.whileLoop, Parser.run_skip]
    refine (Parser.run_token tokens hopen).trans <| (Parser.run_bind hc).trans <|
      (Parser.run_token tokens hclose).trans <| (Parser.run_bind hbody).trans ?_
    rw [hclosed]
    rfl
  · rw [hclosed]
    exact .whileDo (hm.advance.emit _ _) hctype hb (by rw [hlen])

private theorem parseFor_accepts (fuel : Nat) (hblock : Accepts block (Translates r)) :
    Accepts (parseFor source tokens fuel block)
      (Translates (Parser.forLoop source tokens fuel r)) := by
  refine .bind advance_clean fun _ => (Accepts.expect tokens _ _).andThen ?_
  refine .bind (current_clean tokens) fun token => ?_
  split
  · exact setError_return
  · refine (parseDeclaration_accepts source tokens fuel true).andThen ?_
    refine .bind codeCount_clean fun test => ?_
    refine .bind (parseExpression_clean source tokens fuel) fun type => ?_
    refine .bind (check_clean tokens _ _) fun _ => (Accepts.expect tokens _ _).andThen ?_
    refine .bind (emit_clean tokens _ _) fun exitJump =>
      .bind (emit_clean tokens _ _) fun bodyJump => ?_
    refine .bind codeCount_clean fun step => ?_
    have hincrement : Accepts (andThen (parseAssignment source tokens fuel false)
        (expect tokens .rightParen "expected ')' after for header")) fun s t =>
        ∃ a m, Parser.assignment source tokens fuel false s.position = some (a, m.position) ∧
          (tokenAt tokens m.position).kind = .rightParen ∧ s.Assigns m a ∧ t = m.advanced := by
      refine (parseAssignment_accepts source tokens fuel false).andThen ?_
      refine (Accepts.expect tokens _ _).mono ?_
      rintro m _ ⟨hkind, rfl⟩ s ⟨a, ha, hm⟩
      exact ⟨a, m, ha, hkind, hm, rfl⟩
    refine hincrement.andThen ?_
    refine .bind (emit_clean tokens _ _).discard fun _ => .bind codeCount_clean fun start => ?_
    refine .bind (patch_clean _ _) fun _ => (beginLoop_accepts tokens _).andThen ?_
    refine hblock.andThen ((closeLoop_accepts tokens _ _).mono ?_)
    rintro b t ht _ ⟨body, hbody, hb⟩ l rfl _ hl _ ⟨rfl, rfl⟩ _ ⟨_, -, rfl⟩
      _ ⟨increment, n, hincrement, hclose, hn, rfl⟩ _ ⟨rfl, rfl⟩ _ ⟨rfl, rfl⟩ _ ⟨rfl, rfl⟩
      _ ⟨hsemicolon, rfl⟩ m ⟨htype, rfl⟩ _ ⟨c, hc, hctype, hm⟩ _ ⟨rfl, rfl⟩ i ⟨initial, hinitial, hi⟩
      _ ⟨rfl, rfl⟩ _ ⟨hopen, rfl⟩ s rfl
    obtain rfl := eq_of_beq htype
    have hclosed := ht _ rfl
    have hl := hl _ rfl
    have hi := hi.advanced.advanced
    have hlen := hm.length_code
    have hm := hm.advance.emit .jumpIfFalse 0 |>.emit .jump 0
    rw [append_assoc] at hm
    refine ⟨.forDo initial c increment body, ?_, ?_⟩
    · rw [Parser.forLoop, Parser.run_skip]
      refine (Parser.run_token tokens hopen).trans <| (Parser.run_bind hinitial).trans <|
        (Parser.run_bind hc).trans <| (Parser.run_token tokens hsemicolon).trans <|
        (Parser.run_bind hincrement).trans <| (Parser.run_token tokens hclose).trans ?_
      rw [hl] at hbody
      refine (Parser.run_bind hbody).trans ?_
      rw [hclosed]
      rfl
    · rw [Engine.advanced_code, hlen] at hclosed
      rw [Engine.emitted_code, length_append, Engine.advanced_code, hlen] at hl
      rw [hclosed]
      subst hl
      refine .forDo hi hm hctype hn.advance hb (by simp) ?_
      rw [hb.code _ (prefix_refl _)]
      simp [Engine.entered, Engine.patched, patchCode]

private theorem parsePrint_accepts (hexpression : Clean NoError expression (Compiles q)) :
    Accepts (parsePrint tokens expression) (Translates do
      discard (Parser.token tokens .leftParen)
      let e ← q
      discard (Parser.token tokens .rightParen)
      Parser.optional tokens .semicolon
      return .print e) := by
  refine (Accepts.expect tokens _ _).andThen (.bind hexpression fun type => ?_)
  split
  · exact .refuse
  · refine (Accepts.expect tokens _ _).andThen (.bind (emit_clean tokens _ _).discard fun _ => ?_)
    refine .bind (optional_clean tokens _) fun _ => Accepts.noError.mono ?_
    rintro t _ rfl _ ⟨hsemicolon, ht⟩ _ ⟨_, -, rfl⟩ m ⟨hclose, rfl⟩ _ ⟨e, hq, he, hm⟩ s ⟨hopen, rfl⟩
    have hgrows := (hm.advanced.advance.emit .print 0).trans ht
    rw [append_nil] at hgrows
    refine ⟨.print e, ?_, .print hgrows he⟩
    exact (Parser.run_token tokens hopen).trans <| (Parser.run_bind hq).trans <|
      (Parser.run_token tokens hclose).trans <| Parser.run_bind hsemicolon

private theorem parseBreak_accepts : Accepts (parseBreak tokens)
    (Translates do Parser.optional tokens .semicolon; return .breakLoop) := by
  have hrecord (jump : Option Nat) : Clean NoError (modify fun e : Engine =>
      { e with breakJumps := e.breakJumps ++ [jump.getD (2 ^ 16 - 1)] } : CompileM PUnit)
      fun s _ t => t = { s with breakJumps := s.breakJumps ++ [jump.getD (2 ^ 16 - 1)] } :=
    .of_eq (fun _ => rfl) fun _ h => ⟨h, rfl⟩
  refine .bind Clean.get fun engine => ?_
  split
  · exact .bind (previous_clean tokens) fun _ => setError_return
  · split
    · exact .bind (current_clean tokens) fun _ => setError_return
    · next hloops _ =>
      refine .bind (emit_clean tokens _ _) fun jump => .bind (hrecord jump) fun _ => ?_
      refine .bind (optional_clean tokens _) fun _ => Accepts.noError.mono ?_
      rintro t _ rfl m ⟨hsemicolon, ht⟩ _ rfl s ⟨rfl, rfl⟩ _ ⟨rfl, rfl⟩
      refine ⟨.breakLoop, Parser.run_bind hsemicolon, Engine.Appends.grow ?_ ht⟩
      exact .breakLoop ((Engine.Grows.refl s).emit _ _) hloops _ rfl

private theorem parseContinue_accepts : Accepts (parseContinue tokens)
    (Translates do Parser.optional tokens .semicolon; return .continueLoop) := by
  refine .bind Clean.get fun engine => ?_
  split
  · exact .bind (previous_clean tokens) fun _ => setError_return
  · next loop outer hloops =>
    refine .bind (emit_clean tokens _ _).discard fun _ => ?_
    refine .bind (optional_clean tokens _) fun _ => Accepts.noError.mono ?_
    rintro t _ rfl m ⟨hsemicolon, ht⟩ s ⟨_, -, rfl⟩ _ ⟨rfl, rfl⟩
    refine ⟨.continueLoop, Parser.run_bind hsemicolon, Engine.Appends.grow ?_ ht⟩
    exact .continueLoop hloops ((Engine.Grows.refl s).emit _ _)

private theorem keyword_accepts {x : CompileM Bool} (h : Accepts x (Translates r)) :
    Accepts (do advance; x) (Translates do Parser.skip; r) := by
  refine .bind advance_clean fun _ => h.mono ?_
  rintro _ t ⟨p, hp, ht⟩ s rfl
  exact ⟨p, hp, ht.advanced⟩

private theorem assignment_accepts {x : CompileM Bool} {q : Parser Assignment}
    (h : Accepts x fun s t => ∃ a, q s.position = some (a, t.position) ∧ s.Assigns t a) :
    Accepts x (Translates do return .assignment (← q)) := by
  refine h.mono ?_
  rintro s t ⟨a, ha, ht⟩
  exact ⟨.assignment a, Parser.run_bind ha, .assignment ht⟩

private theorem parseStatement_accepts (fuel : Nat) : Accepts (parseStatement source tokens fuel)
      (Translates (Parser.statement source tokens fuel)) := by
  induction fuel with
  | zero => exact Clean.outOfFuel
  | succ fuel ih =>
    have hexpression := parseExpression_clean source tokens fuel
    have hblock := parseBlock_accepts tokens ih fuel
    have hdeclaration := assignment_accepts (parseDeclaration_accepts source tokens fuel false)
    refine .bind (current_clean tokens) fun token => ?_
    -- the parser looks at the same token
    have hcase {x : CompileM Bool} {q : Parser Stmt} (h : Accepts x (Translates q))
        (hq : ∀ n, tokenAt tokens n = token → Parser.statement source tokens (fuel + 1) n = q n) :
        Accepts x fun m t => ∀ s, token = tokenAt tokens s.position ∧ m = s →
          Translates (Parser.statement source tokens (fuel + 1)) s t := by
      refine h.mono ?_
      rintro s t ⟨p, hp, ht⟩ _ ⟨htoken, rfl⟩
      exact ⟨p, (hq _ htoken.symm).trans hp, ht⟩
    split
    · next hkind => exact hcase hdeclaration fun n hn => by simp [Parser.statement, hn, hkind]
    · next hkind => exact hcase hdeclaration fun n hn => by simp [Parser.statement, hn, hkind]
    · next hkind => exact hcase hdeclaration fun n hn => by simp [Parser.statement, hn, hkind]
    · next hkind =>
      exact hcase (keyword_accepts (parsePrint_accepts tokens hexpression))
        fun n hn => by simp [Parser.statement, hn, hkind]
    · next hkind =>
      exact hcase (keyword_accepts (parseIfTail_accepts tokens hexpression hblock fuel))
        fun n hn => by simp [Parser.statement, hn, hkind]
    · next hkind =>
      exact hcase (keyword_accepts (parseBreak_accepts tokens))
        fun n hn => by simp [Parser.statement, hn, hkind]
    · next hkind =>
      exact hcase (keyword_accepts (parseContinue_accepts tokens))
        fun n hn => by simp [Parser.statement, hn, hkind]
    · next hkind =>
      exact hcase (parseWhile_accepts tokens hexpression hblock)
        fun n hn => by simp [Parser.statement, hn, hkind]
    · next hkind =>
      exact hcase (parseFor_accepts source tokens fuel hblock)
        fun n hn => by simp [Parser.statement, hn, hkind]
    · next hkind =>
      exact hcase (assignment_accepts (parseAssignment_accepts source tokens fuel false))
        fun n hn => by simp [Parser.statement, hn, hkind]
    · exact setError_return

private theorem compile_accepts (fuel : Nat) : Accepts (compile source tokens fuel)
    (Translates (Parser.list tokens (Parser.statement source tokens fuel) endsProgram fuel)) := by
  refine (statements_accepts tokens (parseStatement_accepts source tokens fuel) endsProgram
    fuel).andThen (Accepts.noError.mono ?_)
  rintro t _ rfl s hs
  exact hs

end

/-! ### Programs -/

/-- What a source that is accepted is: its tree, with types, and the code of the tree. -/
structure Built (source : Bytes) (p : Executable) (tokens : List Token) (vars : List Variable)
    (ast : Stmt) : Prop where
  parsed : parse source tokens = some ast
  typed : ast.Typed (typesIn vars) false
  valid : ∀ v ∈ vars, v.type ≠ .invalid
  code : p.code = ast.code (slotIn vars) 0 0 0
  variableCount : p.variableCount = vars.length
  text : p.text = fun i => tokenText source (tokenAt tokens i)

/-- Every source that is accepted has a tree. -/
theorem build_accepts {source : Bytes} {p : Executable} {tokens : List Token} {engine : Engine}
    (h : build source = .ok (.ok (p, tokens, engine))) :
    ∃ ast, Built source p tokens engine.vars ast := by
  obtain ⟨tokenized, htokens, h⟩ := bind_eq_ok.mp h
  cases tokenized with
  | error error => cases h
  | ok tokens' =>
    obtain ⟨⟨accepted, engine'⟩, hcompile, h⟩ := bind_eq_ok.mp h
    dsimp only at h
    split at h
    · cases h
    · next herror =>
      split at h
      · next haccepted =>
        cases h
        obtain ⟨ast, hparse, hast⟩ :=
          (compile_accepts source tokens _).result _ _ _ hcompile herror haccepted
        have hcode := hast.code _ (prefix_refl _)
        refine ⟨ast, ?_, hast.typed _ (prefix_refl _), ?_, hcode, rfl, rfl⟩
        · rw [parse]
          exact congrArg (Option.map Prod.fst) hparse
        · exact hast.valid nofun
      · cases h

end NasuaOS.SuaScript
