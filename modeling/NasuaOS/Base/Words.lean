import Mathlib.Tactic.Positivity
import Mathlib.Tactic.Ring

/-!
# Little-endian words inside byte functions

A byte store is observed as a total function from offsets to bytes. This module reads and
lays out fixed-width little-endian naturals at an offset of such a store. Every packed
record of the kernel (directory entries, boot sectors, allocation tables) is read through
these two operations.
-/

namespace NasuaOS.Base

/-- A string of bytes. -/
abbrev Bytes : Type := List UInt8

/-- The natural stored in the `n` bytes from `off` on, least significant byte first. -/
def leNat (store : Nat → UInt8) (off : Nat) : Nat → Nat
  | 0 => 0
  | n + 1 => (store off).toNat + 256 * leNat store (off + 1) n

/-- Byte `k`, counted from the least significant one, of a natural. -/
def leByte (value k : Nat) : UInt8 := UInt8.ofNat (value / 256 ^ k)

/-- An `n`-byte word is below `256 ^ n`. -/
theorem leNat_lt (store : Nat → UInt8) (off n : Nat) : leNat store off n < 256 ^ n := by
  induction n generalizing off with
  | zero => simp [leNat]
  | succ n ih =>
    have hb : (store off).toNat < 256 := (store off).toNat_lt
    have hr := ih (off + 1)
    rw [leNat, Nat.pow_succ]
    omega

/-- A word depends only on the bytes it covers. -/
theorem leNat_congr (s t : Nat → UInt8) (off n : Nat)
    (h : ∀ k, k < n → s (off + k) = t (off + k)) : leNat s off n = leNat t off n := by
  induction n generalizing off with
  | zero => rfl
  | succ n ih =>
    have h0 := h 0 (by omega)
    have hr := ih (off + 1) (fun k hk => by
      have := h (k + 1) (by omega)
      rwa [show off + 1 + k = off + (k + 1) by omega])
    rw [Nat.add_zero] at h0
    rw [leNat, leNat, h0, hr]

private theorem leNat_add (store : Nat → UInt8) (off m n : Nat) :
    leNat store off (m + n) = leNat store off m + 256 ^ m * leNat store (off + m) n := by
  induction m generalizing off with
  | zero => simp [leNat]
  | succ m ih =>
    rw [Nat.add_right_comm, leNat, ih (off + 1), leNat, Nat.pow_succ',
      show off + 1 + m = off + (m + 1) by omega]
    ring

/-- The `m` bytes from byte `k` on of a longer word. -/
theorem leNat_div_mod (store : Nat → UInt8) (off : Nat) {n k m : Nat} (h : k + m ≤ n) :
    leNat store off n / 256 ^ k % 256 ^ m = leNat store (off + k) m := by
  obtain ⟨r, rfl⟩ := Nat.exists_eq_add_of_le h
  have hlow := leNat_lt store off k
  have hmid := leNat_lt store (off + k) m
  rw [Nat.add_assoc, leNat_add, Nat.add_mul_div_left _ _ (by positivity),
    Nat.div_eq_of_lt hlow, Nat.zero_add, leNat_add, Nat.add_mul_mod_self_left,
    Nat.mod_eq_of_lt hmid]

/-- Reading the bytes of a value laid out at `off` returns the value, cut to the width. -/
theorem leNat_leByte (store : Nat → UInt8) (off n value : Nat)
    (h : ∀ k, k < n → store (off + k) = leByte value k) : leNat store off n = value % 256 ^ n := by
  induction n generalizing off value with
  | zero => simp [leNat, Nat.mod_one]
  | succ n ih =>
    have h0 : store off = leByte value 0 := h 0 (by omega)
    have hr := ih (off + 1) (value / 256) (fun k hk => by
      have hk := h (k + 1) (by omega)
      rw [show off + 1 + k = off + (k + 1) by omega, hk, leByte, leByte, Nat.pow_succ',
        Nat.div_div_eq_div_mul])
    have hb : (leByte value 0).toNat = value % 256 := by
      rw [leByte, Nat.pow_zero, Nat.div_one]
      exact UInt8.toNat_ofNat'
    rw [leNat, hr, h0, hb, Nat.pow_succ', Nat.mod_mul]

end NasuaOS.Base
