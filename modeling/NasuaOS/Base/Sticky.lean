import NasuaOS.Base.Triples

/-!
# Programs with a failure that stays

A program keeps its first failure in its state and goes on behind it. Whoever sees a good state at the
end may conclude that every state on the way was good, so only the good runs have to be described. The
rule for one program after another hands what is known of the first one on to the second one.
-/

namespace NasuaOS.Base

variable {σ α β : Type}

/-- A run ends well only if it started well, and then it did what is said. -/
structure Clean (good : σ → Prop) (x : Program σ α) (Q : σ → α → σ → Prop) : Prop where
  before : ∀ s a t, x s = .ok (a, t) → good t → good s
  result : ∀ s a t, x s = .ok (a, t) → good t → Q s a t

namespace Clean

variable {good : σ → Prop} {x : Program σ α} {Q Q' : σ → α → σ → Prop} {R : σ → β → σ → Prop}

/-- Say less. -/
theorem mono (h : Clean good x Q) (hQ : ∀ s a t, Q s a t → Q' s a t) : Clean good x Q' :=
  ⟨h.before, fun s a t hx hg => hQ s a t (h.result s a t hx hg)⟩

/-- A program by what its runs do. -/
theorem of_run (h : ∀ s a t, x s = .ok (a, t) → good t → good s ∧ Q s a t) : Clean good x Q :=
  ⟨fun s a t hx hg => (h s a t hx hg).1, fun s a t hx hg => (h s a t hx hg).2⟩

/-- Returning from a good state. -/
theorem pure_of_good {a : α} (h : ∀ s, good s → Q s a s) : Clean good (pure a) Q := by
  refine of_run fun s a' t hx hg => ?_
  cases hx
  exact ⟨hg, h s hg⟩

/-- Returning. -/
theorem pure {a : α} (h : ∀ s, Q s a s) : Clean good (pure a) Q := pure_of_good fun s _ => h s

/-- One program after another. -/
theorem bind {f : α → Program σ β} (hx : Clean good x Q)
    (hf : ∀ a, Clean good (f a) fun m b t => ∀ s, Q s a m → R s b t) : Clean good (x >>= f) R := by
  refine of_run fun s b t h hg => ?_
  obtain ⟨a, m, hxm, hft⟩ := run_bind_eq_ok h
  have hm : good m := (hf a).before m b t hft hg
  exact ⟨hx.before s a m hxm hm, (hf a).result m b t hft hg s (hx.result s a m hxm hm)⟩

/-- A program that always returns, by what it returns. -/
theorem of_eq {f : σ → α × σ} (heq : ∀ s, x s = .ok (f s))
    (h : ∀ s, good (f s).2 → good s ∧ Q s (f s).1 (f s).2) : Clean good x Q := by
  refine of_run fun s a t hx => ?_
  have hf : f s = (a, t) := Except.ok.inj ((heq s).symm.trans hx)
  have hs := h s
  rwa [hf] at hs

/-- Reading the state. -/
theorem get : Clean good (get : Program σ σ) fun s a t => a = s ∧ t = s :=
  of_eq (fun _ => rfl) fun _ hg => ⟨hg, rfl, rfl⟩

/-- Giving up. -/
theorem outOfFuel : Clean good (throw .outOfFuel : Program σ α) Q := ⟨nofun, nofun⟩

/-- A program whose result is dropped. -/
theorem discard (hx : Clean good x Q) : Clean good (discard x) fun s _ t => ∃ a, Q s a t :=
  hx.bind fun a => pure fun _ _ h => ⟨a, h⟩

end Clean

end NasuaOS.Base
