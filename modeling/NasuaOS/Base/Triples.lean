import NasuaOS.Base.Reading

/-!
# Pre- and postconditions of programs with a state

A reading program yields results of a kind when it touches nothing outside its buffers and whatever
it returns is of that kind; where it may be lazy it may also run out of fuel. A program with a state
may stop as a reading program does; a triple says the same of it, from every state with the
precondition. There is one rule for each way to combine programs.
-/

namespace NasuaOS.Base

open List

variable {lazy : Prop}

/-- The program stays inside its buffers and returns something of a kind, unless it may be lazy. -/
inductive Yields {α : Type} (lazy : Prop) : Reading α → (α → Prop) → Prop
  | ok {a : α} {Q : α → Prop} (h : Q a) : Yields lazy (.ok a) Q
  | outOfFuel {Q : α → Prop} (h : lazy) : Yields lazy (.error .outOfFuel) Q

namespace Yields

variable {α β : Type} {x : Reading α} {Q Q' : α → Prop} {R : β → Prop}

/-- Returning. -/
theorem pure {a : α} (h : Q a) : Yields lazy (pure a) Q := ok h

/-- What is returned. -/
theorem result (h : Yields lazy x Q) {a : α} (ha : x = .ok a) : Q a := by
  subst ha
  cases h with
  | ok h => exact h

/-- Nothing outside is touched. -/
theorem inBounds (h : Yields lazy x Q) : InBounds x := by
  cases h with
  | ok => exact InBounds.ok _
  | outOfFuel => exact InBounds.outOfFuel

/-- A program that may not be lazy returns. -/
theorem returns (h : Yields False x Q) : ∃ a, x = .ok a ∧ Q a := by
  cases h with
  | ok h => exact ⟨_, rfl, h⟩
  | outOfFuel h => exact h.elim

/-- One program after another. -/
theorem bind {f : α → Reading β} (hx : Yields lazy x Q) (hf : ∀ a, Q a → Yields lazy (f a) R) :
    Yields lazy (x >>= f) R := by
  cases hx with
  | ok h => exact hf _ h
  | outOfFuel h => exact .outOfFuel h

/-- Say what was returned. -/
theorem eq (h : Yields lazy x Q) : Yields lazy x fun a => x = .ok a ∧ Q a := by
  cases h with
  | ok h => exact .ok ⟨rfl, h⟩
  | outOfFuel h => exact .outOfFuel h

/-- Say less. -/
theorem mono (h : Yields lazy x Q) (hpost : ∀ a, Q a → Q' a) : Yields lazy x Q' := by
  cases h with
  | ok h => exact .ok (hpost _ h)
  | outOfFuel h => exact .outOfFuel h

end Yields

/-- A program with a state. -/
abbrev Program (σ α : Type) : Type := StateT σ Reading α

variable {σ α β : Type} {P P' : σ → Prop} {Q Q' : α → σ → Prop} {R : β → σ → Prop}

/-- Precondition, program, postcondition. -/
structure Triple (lazy : Prop) (P : σ → Prop) (x : Program σ α) (Q : α → σ → Prop) : Prop where
  yields : ∀ s, P s → Yields lazy (x s) fun r => Q r.1 r.2

namespace Triple

variable {x : Program σ α}

/-- Both conditions may be weakened. -/
theorem conseq (h : Triple lazy P x Q) (hpre : ∀ s, P' s → P s) (hpost : ∀ a s, Q a s → Q' a s) :
    Triple lazy P' x Q' :=
  ⟨fun s hs => (h.yields s (hpre s hs)).mono fun r => hpost r.1 r.2⟩

/-- Returning. -/
theorem pure {a : α} (h : ∀ s, P s → Q a s) : Triple lazy P (pure a) Q :=
  ⟨fun s hs => .ok (h s hs)⟩

/-- One program after another. -/
theorem bind {f : α → Program σ β} (hx : Triple lazy P x Q) (hf : ∀ a, Triple lazy (Q a) (f a) R) :
    Triple lazy P (x >>= f) R :=
  ⟨fun s hs => (hx.yields s hs).bind fun r => (hf r.1).yields r.2⟩

/-- A program whose result is dropped. -/
theorem discard {K : σ → Prop} (hx : Triple lazy P x fun _ => K) :
    Triple lazy P (discard x) fun _ => K :=
  bind hx fun _ => pure fun _ => id

/-- Replacing the state. -/
theorem set {t : σ} {Q : PUnit → σ → Prop} (h : ∀ s, P s → Q ⟨⟩ t) : Triple lazy P (set t) Q :=
  ⟨fun s hs => .ok (h s hs)⟩

/-- Changing the state. -/
theorem modify {f : σ → σ} {Q : PUnit → σ → Prop} (h : ∀ s, P s → Q ⟨⟩ (f s)) :
    Triple lazy P (modify f) Q :=
  ⟨fun s hs => .ok (h s hs)⟩

/-- Changing the state, and what follows. -/
theorem modify_bind {f : σ → σ} {g : PUnit → Program σ β}
    (h : ∀ s, P s → Triple lazy (fun t => t = f s) (g ⟨⟩) R) :
    Triple lazy P (MonadState.modifyGet (fun s => (⟨⟩, f s)) >>= g) R :=
  ⟨fun s hs => (h s hs).yields (f s) rfl⟩

/-- Reading the state, and what follows. -/
theorem get_bind {f : σ → Program σ β} (h : ∀ s, P s → Triple lazy (fun t => t = s) (f s) R) :
    Triple lazy P (get >>= f) R :=
  ⟨fun s hs => (h s hs).yields s rfl⟩

/-- A reading program, and what follows. -/
theorem lift_bind {x : Reading α} {K : α → Prop} {f : α → Program σ β} (hx : Yields lazy x K)
    (h : ∀ a, K a → Triple lazy P (f a) R) : Triple lazy P (liftM x >>= f) R := by
  refine ⟨fun s hs => ?_⟩
  cases hx with
  | ok ha => exact (h _ ha).yields s hs
  | outOfFuel hlazy => exact .outOfFuel hlazy

/-- Giving up. -/
theorem outOfFuel (h : lazy) : Triple lazy P (throw .outOfFuel : Program σ α) Q :=
  ⟨fun _ _ => .outOfFuel h⟩

/-- A loop over a list. -/
theorem forM {f : α → Program σ PUnit} {l : List α}
    (h : ∀ a ∈ l, Triple lazy P (f a) fun _ => P) : Triple lazy P (l.forM f) fun _ => P := by
  induction l with
  | nil => exact pure fun _ => id
  | cons a l ih =>
    refine bind (h a mem_cons_self) fun _ => ?_
    exact ih fun b hb => h b (mem_cons_of_mem _ hb)

end Triple

section Run

variable {s : σ}

/-- Reading the state, and what follows. -/
theorem run_get (f : σ → Program σ β) : (get >>= f) s = f s s := rfl

/-- Replacing the state, and what follows. -/
theorem run_set (t : σ) (f : PUnit → Program σ β) : (set t >>= f) s = f ⟨⟩ t := rfl

/-- Changing the state, and what follows. -/
theorem run_modify (g : σ → σ) (f : PUnit → Program σ β) : (modify g >>= f) s = f ⟨⟩ (g s) := rfl

/-- A reading program that returns, and what follows. -/
theorem run_read {x : Reading α} {a : α} (h : x = .ok a) (f : α → Program σ β) :
    (liftM x >>= f) s = f a s := by
  rw [h]
  rfl

/-- A program that returns, and what follows. -/
theorem run_bind {x : Program σ α} {a : α} {t : σ} (h : x s = .ok (a, t)) (f : α → Program σ β) :
    (x >>= f) s = f a t := by
  change (x s >>= fun r => f r.1 r.2) = f a t
  rw [h]
  rfl

/-- What a run of two programs was. -/
theorem run_bind_eq_ok {x : Program σ α} {f : α → Program σ β} {r : β × σ}
    (h : (x >>= f) s = .ok r) : ∃ a t, x s = .ok (a, t) ∧ f a t = .ok r := by
  obtain ⟨⟨a, t⟩, hx, hf⟩ := bind_eq_ok.mp h
  exact ⟨a, t, hx, hf⟩

variable {f : α → Program σ PUnit}

private theorem run_forM_skip {l : List α} (h : ∀ a ∈ l, f a s = .ok (⟨⟩, s)) :
    l.forM f s = .ok (⟨⟩, s) := by
  induction l with
  | nil => rfl
  | cons a l ih =>
    change (f a >>= fun _ => l.forM f) s = _
    rw [run_bind (h a mem_cons_self)]
    exact ih fun b hb => h b (mem_cons_of_mem _ hb)

/-- A loop in which one round does something. -/
theorem run_forM_single [DecidableEq α] {l : List α} {i : α} {t : σ} (hnodup : l.Nodup) (hi : i ∈ l)
    (hbefore : ∀ a, a ≠ i → f a s = .ok (⟨⟩, s)) (hround : f i s = .ok (⟨⟩, t))
    (hafter : ∀ a, a ≠ i → f a t = .ok (⟨⟩, t)) : l.forM f s = .ok (⟨⟩, t) := by
  induction l with
  | nil => exact absurd hi not_mem_nil
  | cons a l ih =>
    rw [nodup_cons] at hnodup
    change (f a >>= fun _ => l.forM f) s = _
    by_cases ha : a = i
    · subst ha
      rw [run_bind hround]
      refine run_forM_skip fun b hb => hafter b ?_
      exact fun hba => hnodup.1 (hba ▸ hb)
    · rw [run_bind (hbefore a ha)]
      exact ih hnodup.2 (mem_of_ne_of_mem (Ne.symm ha) hi)

end Run

end NasuaOS.Base
