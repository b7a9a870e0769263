import Mathlib.Init

/-!
# State-passing programs as functions

A `StateM` program applied to a state is a result and a new state. The equations below push
that application through the monad operations, so that a program runs by rewriting.
-/

namespace NasuaOS.Base

variable {σ α β : Type}

/-- Sequencing runs the continuation in the new state. -/
@[simp] theorem bind_apply (x : StateM σ α) (f : α → StateM σ β) (s : σ) :
    (x >>= f) s = f (x s).1 (x s).2 := rfl

/-- Returning leaves the state. -/
@[simp] theorem pure_apply (a : α) (s : σ) : (pure a : StateM σ α) s = (a, s) := rfl

/-- Mapping changes only the result. -/
@[simp] theorem map_apply (f : α → β) (x : StateM σ α) (s : σ) :
    (f <$> x) s = (f (x s).1, (x s).2) := rfl

/-- Reading the state. -/
@[simp] theorem get_apply (s : σ) : (get : StateM σ σ) s = (s, s) := rfl

/-- Replacing the state. -/
@[simp] theorem set_apply (s t : σ) : (set t : StateM σ PUnit) s = (⟨⟩, t) := rfl

/-- Changing the state. -/
@[simp] theorem modify_apply (f : σ → σ) (s : σ) :
    (modify f : StateM σ PUnit) s = (⟨⟩, f s) := rfl

/-- The state after a loop over a list is the fold of the state after its body. -/
theorem forM_apply (f : α → StateM σ PUnit) (l : List α) (s : σ) :
    l.forM f s = (⟨⟩, l.foldl (fun t a => (f a t).2) s) := by
  induction l generalizing s with
  | nil => rfl
  | cons a l ih =>
    change l.forM f (f a s).2 = _
    rw [ih]
    rfl

/-- A fold keeps every property that its step keeps. -/
theorem foldl_invariant {P : σ → Prop} (f : σ → α → σ) (l : List α) (s : σ) (h : P s)
    (hs : ∀ t a, a ∈ l → P t → P (f t a)) : P (l.foldl f s) := by
  induction l generalizing s with
  | nil => exact h
  | cons a l ih =>
    apply ih (f s a) (hs s a (by simp) h)
    intro t b hb
    exact hs t b (by simp [hb])

/-- A fold whose steps never go down does not go down. -/
theorem le_foldl (f : Nat → α → Nat) (l : List α) (n : Nat) (h : ∀ k a, k ≤ f k a) :
    n ≤ l.foldl f n := by
  apply foldl_invariant f l n (Nat.le_refl n)
  intro k a _ hk
  exact Nat.le_trans hk (h k a)

/-- A fold whose steps never go down stays above what one of its steps reaches. -/
theorem le_foldl_of_mem (f : Nat → α → Nat) (l : List α) (n bound : Nat) (h : ∀ k a, k ≤ f k a)
    (a : α) (ha : a ∈ l) (hb : ∀ k, bound ≤ f k a) : bound ≤ l.foldl f n := by
  obtain ⟨front, back, rfl⟩ := List.append_of_mem ha
  rw [List.foldl_append, List.foldl_cons]
  exact Nat.le_trans (hb _) (le_foldl f back _ h)

end NasuaOS.Base
