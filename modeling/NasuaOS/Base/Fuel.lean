import NasuaOS.Base.Reading

/-!
# Programs with fuel

A family of programs indexed by fuel stands for a program that may not end. More fuel does not
are that some fuel gives a result, and that no fuel leads outside the store.
-/

namespace NasuaOS.Base

variable {α β : Type} {x : Nat → Reading α} {f : α → Nat → Reading β}

/-- Once the program does not run out of fuel, more fuel changes nothing. -/
def Fueled (x : Nat → Reading α) : Prop :=
  ∀ fuel fuel' : Nat, fuel ≤ fuel' → x fuel ≠ .error .outOfFuel → x fuel' = x fuel

namespace Fueled

/-- A program without fuel. -/
theorem const (x : Reading α) : Fueled fun _ => x := fun _ _ _ _ => rfl

/-- One program after another. -/
theorem bind (hx : Fueled x) (hf : ∀ a, Fueled (f a)) :
    Fueled fun fuel => x fuel >>= fun a => f a fuel := by
  intro fuel fuel' hle h
  have hsame := hx _ _ hle
  dsimp only at h ⊢
  cases hres : x fuel with
  | ok a =>
    rw [hres] at h hsame
    rw [hsame nofun]
    exact hf a _ _ hle h
  | error stop =>
    rw [hres] at h hsame
    rw [hsame fun hstop => h (congrArg Except.error (Except.error.inj hstop))]
    rfl

/-- A result does not change. -/
theorem ok (hx : Fueled x) {fuel fuel' : Nat} {a : α} (h : x fuel = .ok a) (hle : fuel ≤ fuel') :
    x fuel' = .ok a := by
  rw [hx _ _ hle (by rw [h]; nofun), h]

end Fueled

/-- Some fuel gives a result. -/
def Returns (x : Nat → Reading α) : Prop := ∃ fuel a, x fuel = .ok a

/-- A property of programs with fuel that results have and sequences keep. -/
structure Sequential (P : (α : Type) → (Nat → Reading α) → Prop) : Prop where
  ok : ∀ {α : Type} (a : α), P α fun _ => .ok a
  bind : ∀ {α β : Type} {x : Nat → Reading α} {f : α → Nat → Reading β}, Fueled x →
    (∀ a, Fueled (f a)) → P α x → (∀ fuel a, x fuel = .ok a → P β (f a)) →
      P β fun fuel => x fuel >>= fun a => f a fuel

/-- A sequence returns when its parts do. -/
theorem sequential_returns : Sequential fun _ x => Returns x where
  ok a := ⟨0, a, rfl⟩
  bind hx hf h hrest := by
    obtain ⟨fuel, a, hres⟩ := h
    obtain ⟨fuel', b, hres'⟩ := hrest fuel a hres
    refine ⟨max fuel fuel', b, bind_eq_ok.mpr ⟨a, ?_, ?_⟩⟩
    · exact hx.ok hres (Nat.le_max_left _ _)
    · exact (hf a).ok hres' (Nat.le_max_right _ _)

/-- A sequence stays inside the store when its parts do. -/
theorem sequential_inBounds : Sequential fun _ x => ∀ fuel, InBounds (x fuel) where
  ok a _ := InBounds.ok a
  bind _ _ h hrest fuel := InBounds.bind_iff.mpr ⟨h fuel, fun a ha => hrest fuel a ha fuel⟩

end NasuaOS.Base
