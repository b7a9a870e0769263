import NasuaOS.Base.Words

/-!
# Programs that read a bounded byte store

A store has a size and a byte at every offset. A program that reads it either returns, or stops
because it touched an offset outside the store, or did not end within its fuel. `InBounds` says
that it did not stop for the first reason; it is followed through a program by one rule for each
way to combine programs.
-/

namespace NasuaOS.Base

open List

/-- Why a reading program has no result. -/
inductive Stop
  | outOfBounds
  | outOfFuel
  deriving DecidableEq, Repr

/-- A program that reads a store. -/
abbrev Reading (α : Type) : Type := Except Stop α

/-- Bytes with a size; only offsets below the size may be read. -/
structure Store where
  size : Nat
  byte : Nat → UInt8

namespace Store

/-- Read one byte. -/
def get (s : Store) (off : Nat) : Reading UInt8 :=
  if off < s.size then .ok (s.byte off) else .error .outOfBounds

/-- Read an `n`-byte little-endian word. -/
def word (s : Store) (off n : Nat) : Reading Nat :=
  if off + n ≤ s.size then .ok (leNat s.byte off n) else .error .outOfBounds

/-- The `n` bytes from `off` on, as a list. -/
def slice (s : Store) (off n : Nat) : Bytes := (range n).map fun k => s.byte (off + k)

/-- Copy `n` bytes out of the store. -/
def copy (s : Store) (off n : Nat) : Reading Bytes :=
  if off + n ≤ s.size then .ok (s.slice off n) else .error .outOfBounds

variable {s : Store} {off n : Nat}

/-- A byte inside the store is read. -/
theorem get_eq (h : off < s.size) : s.get off = .ok (s.byte off) := if_pos h

/-- A word inside the store is read. -/
theorem word_eq (h : off + n ≤ s.size) : s.word off n = .ok (leNat s.byte off n) := if_pos h

/-- Bytes inside the store are copied. -/
theorem copy_eq (h : off + n ≤ s.size) : s.copy off n = .ok (s.slice off n) := if_pos h

/-- A slice has the length asked for. -/
@[simp] theorem length_slice (s : Store) (off n : Nat) : (s.slice off n).length = n := by
  simp [slice]

/-- A slice in two parts. -/
theorem slice_append (s : Store) (off m n : Nat) :
    s.slice off (m + n) = s.slice off m ++ s.slice (off + m) n := by
  rw [slice, slice, slice, range_add, map_append, map_map]
  congr 1
  apply map_congr_left
  intro k _
  rw [Function.comp_apply, Nat.add_assoc]

private theorem take_slice (s : Store) (off : Nat) {m n : Nat} (h : m ≤ n) :
    (s.slice off n).take m = s.slice off m := by
  obtain ⟨k, rfl⟩ := Nat.exists_eq_add_of_le h
  rw [slice_append, take_append_of_le_length (by simp), take_of_length_le (by simp)]

/-- The last bytes of a slice. -/
theorem drop_slice (s : Store) (off : Nat) {m n : Nat} (h : m ≤ n) :
    (s.slice off n).drop m = s.slice (off + m) (n - m) := by
  obtain ⟨k, rfl⟩ := Nat.exists_eq_add_of_le h
  rw [slice_append, drop_append_of_le_length (by simp), drop_of_length_le (by simp),
    nil_append, Nat.add_sub_cancel_left]

/-- The first bytes of a slice and what follows it. -/
theorem take_slice_append (s : Store) (off m n : Nat) (rest : Bytes) :
    (s.slice off m ++ rest).take n = s.slice off (min n m) ++ rest.take (n - min n m) := by
  rw [take_append, length_slice]
  by_cases h : n ≤ m
  · rw [take_slice s off h, Nat.min_eq_left h, Nat.sub_eq_zero_of_le h, Nat.sub_self]
  · have hle : m ≤ n := Nat.le_of_not_le h
    rw [take_of_length_le (by simpa using hle), Nat.min_eq_right hle]

end Store

/-- A sequence returns when both parts do. -/
theorem bind_eq_ok {α β : Type} {x : Reading α} {f : α → Reading β} {b : β} :
    (x >>= f) = .ok b ↔ ∃ a, x = .ok a ∧ f a = .ok b := by
  cases x with
  | ok a =>
    constructor
    · intro h
      exact ⟨a, rfl, h⟩
    · rintro ⟨_, ⟨⟩, h⟩
      exact h
  | error stop =>
    constructor
    · intro h
      cases h
    · rintro ⟨a, h, -⟩
      cases h

/-- The program does not touch an offset outside the store. -/
def InBounds {α : Type} (x : Reading α) : Prop := x ≠ .error .outOfBounds

instance {α : Type} : (x : Reading α) → Decidable (InBounds x)
  | .ok _ => isTrue (by simp [InBounds])
  | .error .outOfBounds => isFalse (by simp [InBounds])
  | .error .outOfFuel => isTrue (by simp [InBounds])

namespace InBounds

variable {α β : Type}

/-- Returning reads nothing. -/
theorem ok (a : α) : InBounds (.ok a : Reading α) := by simp [InBounds]

/-- Running out of fuel reads nothing. -/
theorem outOfFuel : InBounds (.error .outOfFuel : Reading α) := by simp [InBounds]

/-- A program and what follows it. -/
theorem bind_iff {x : Reading α} {f : α → Reading β} :
    InBounds (x >>= f) ↔ InBounds x ∧ ∀ a, x = .ok a → InBounds (f a) := by
  cases x with
  | ok a =>
    constructor
    · intro h
      exact ⟨ok a, fun _ ha => Except.ok.inj ha ▸ h⟩
    · rintro ⟨-, h⟩
      exact h a rfl
  | error stop =>
    constructor
    · intro h
      exact ⟨fun hstop => h (congrArg Except.error (Except.error.inj hstop)), nofun⟩
    · rintro ⟨h, -⟩ hstop
      exact h (congrArg Except.error (Except.error.inj hstop))

/-- A program whose result is changed. -/
theorem map_iff {x : Reading α} {f : α → β} : InBounds (f <$> x) ↔ InBounds x := by
  rw [map_eq_pure_bind, bind_iff]
  exact and_iff_left fun a _ => ok (f a)

variable {s : Store} {off n : Nat}

/-- A word inside the store. -/
theorem word_iff : InBounds (s.word off n) ↔ off + n ≤ s.size := by
  rw [Store.word]
  split
  · next h => simp [h, ok]
  · next h => simp [h, InBounds]

/-- A copy of bytes inside the store. -/
theorem copy_iff : InBounds (s.copy off n) ↔ off + n ≤ s.size := by
  rw [Store.copy]
  split
  · next h => simp [h, ok]
  · next h => simp [h, InBounds]

end InBounds

end NasuaOS.Base
