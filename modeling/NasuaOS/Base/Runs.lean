import Mathlib.Data.Option.Basic

/-!
# Runs of a system with partial steps

A system is a partial step function. Along a run a record may be kept that the system itself does not
have, and each step may be asked to meet a condition on the state, the record and the event. What
every such step keeps holds after every such run.
-/

namespace NasuaOS.Base

variable {σ ε γ : Type} {step : σ → ε → Option σ} {record : σ → ε → γ → γ}
  {condition : σ → γ → ε → Prop} {s s' t : σ} {rest events : List ε} {g : γ}

/-- Steps in a row; `none` when one of them is not possible. -/
def steps (step : σ → ε → Option σ) : List ε → σ → Option σ
  | [], s => some s
  | e :: rest, s => (step s e).bind (steps step rest)

/-- The record after steps in a row. -/
def recorded (step : σ → ε → Option σ) (record : σ → ε → γ → γ) : List ε → σ → γ → γ
  | [], _, g => g
  | e :: rest, s, g =>
    match step s e with
    | some s' => recorded step record rest s' (record s e g)
    | none => g

/-- Each step meets a condition on the state before it, the record so far and the event. -/
def Meets (step : σ → ε → Option σ) (record : σ → ε → γ → γ) (condition : σ → γ → ε → Prop) :
    List ε → σ → γ → Prop
  | [], _, _ => True
  | e :: rest, s, g => condition s g e ∧
      ∀ s', step s e = some s' → Meets step record condition rest s' (record s e g)

instance Meets.decidable [∀ s g e, Decidable (condition s g e)] :
    ∀ events s g, Decidable (Meets step record condition events s g)
  | [], _, _ => isTrue trivial
  | e :: rest, s, g =>
    have : Decidable (∀ s', step s e = some s' →
        Meets step record condition rest s' (record s e g)) :=
      match step s e with
      | none => isTrue nofun
      | some s' =>
        have : Decidable (Meets step record condition rest s' (record s e g)) :=
          Meets.decidable rest s' (record s e g)
        decidable_of_iff (Meets step record condition rest s' (record s e g))
          ⟨fun h _ heq => Option.some.inj heq ▸ h, fun h => h s' rfl⟩
    inferInstanceAs (Decidable (_ ∧ _))

/-- What every step that meets the condition keeps holds after a run. -/
theorem steps_invariant {I : σ → γ → Prop}
    (hstep : ∀ s g e s', I s g → condition s g e → step s e = some s' → I s' (record s e g))
    (hI : I s g) (hmeets : Meets step record condition events s g)
    (hrun : steps step events s = some s') : I s' (recorded step record events s g) := by
  induction events generalizing s g with
  | nil =>
    cases hrun
    exact hI
  | cons e rest ih =>
    obtain ⟨t, ht, hrest⟩ := Option.bind_eq_some_iff.mp hrun
    simp only [recorded, ht]
    exact ih (hstep s g e t hI hmeets.1 ht) (hmeets.2 t ht) hrest

/-- A condition on the events alone is met by every step. -/
theorem meets_of_events {P : ε → Prop} (h : ∀ e ∈ events, P e) (s : σ) (g : γ) :
    Meets step record (fun _ _ e => P e) events s g := by
  induction events generalizing s g with
  | nil => trivial
  | cons e rest ih =>
    refine ⟨h e List.mem_cons_self, ?_⟩
    intro s' _
    exact ih (fun e he => h e (List.mem_cons_of_mem _ he)) _ _

/-- So is a condition that an invariant implies. -/
theorem meets_of_invariant {I : σ → γ → Prop} {P : ε → Prop}
    (hstep : ∀ s g e s', I s g → P e → step s e = some s' → I s' (record s e g))
    (hcondition : ∀ s g e, I s g → P e → condition s g e) (hI : I s g)
    (h : ∀ e ∈ events, P e) : Meets step record condition events s g := by
  induction events generalizing s g with
  | nil => trivial
  | cons e rest ih =>
    have he := h e List.mem_cons_self
    refine ⟨hcondition s g e hI he, ?_⟩
    intro s' hs'
    exact ih (hstep s g e s' hI he hs') fun e he => h e (List.mem_cons_of_mem _ he)

end NasuaOS.Base
