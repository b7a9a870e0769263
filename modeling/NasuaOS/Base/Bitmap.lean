import Mathlib.Data.Nat.Bitwise
import Mathlib.Tactic.IntervalCases

/-!
# Bit sets packed into bytes

Bit `i` of a bitmap is bit `i % 8` of byte `i / 8`. Setting and clearing a bit change that bit only,
whatever else is packed into the same byte.
-/

namespace NasuaOS.Base

open Function

/-- Bytes that hold eight bits each. -/
structure Bitmap where
  byte : Nat → UInt8

namespace Bitmap

/-- The byte that has only bit `i % 8`. -/
def mask (i : Nat) : UInt8 := 1 <<< UInt8.ofNat (i % 8)

/-- Look at bit `i`. -/
def test (b : Bitmap) (i : Nat) : Bool := b.byte (i / 8) &&& mask i != 0

/-- Set bit `i`. -/
def set (b : Bitmap) (i : Nat) : Bitmap :=
  ⟨update b.byte (i / 8) (b.byte (i / 8) ||| mask i)⟩

/-- Clear bit `i`. -/
def clear (b : Bitmap) (i : Nat) : Bitmap :=
  ⟨update b.byte (i / 8) (b.byte (i / 8) &&& ~~~mask i)⟩

private theorem toNat_mask (i : Nat) : (mask i).toNat = 2 ^ (i % 8) := by
  have hlt : i % 8 < 8 := Nat.mod_lt _ (by decide)
  unfold mask
  generalize i % 8 = k at hlt
  interval_cases k <;> rfl

private theorem testBit_not (a : UInt8) {k : Nat} (hk : k < 8) :
    (~~~a).toNat.testBit k = !a.toNat.testBit k := by
  have hlt : a.toNat < 2 ^ 8 := a.toNat_lt
  rw [UInt8.toNat_not, show UInt8.size - 1 - a.toNat = 2 ^ 8 - (a.toNat + 1) by
    rw [UInt8.size]
    omega, Nat.testBit_two_pow_sub_succ hlt, decide_eq_true hk, Bool.true_and]

/-- Looking at a bit is looking at a binary digit of its byte. -/
theorem test_eq (b : Bitmap) (i : Nat) : test b i = (b.byte (i / 8)).toNat.testBit (i % 8) := by
  have hzero : b.byte (i / 8) &&& mask i = 0 ↔ (b.byte (i / 8)).toNat.testBit (i % 8) = false := by
    rw [← UInt8.toNat_inj, UInt8.toNat_and, toNat_mask, Nat.and_two_pow]
    cases (b.byte (i / 8)).toNat.testBit (i % 8) with
    | false | true => simp
  rw [test, Bool.eq_iff_iff, bne_iff_ne, ne_eq, hzero, Bool.not_eq_false]

private theorem place_eq_iff {i j : Nat} (hbyte : j / 8 = i / 8) :
    decide (i % 8 = j % 8) = decide (j = i) := by
  rw [decide_eq_decide]
  constructor
  · intro hplace
    omega
  · intro heq
    rw [heq]

/-- Bits after setting one. -/
theorem test_set (b : Bitmap) (i j : Nat) : test (set b i) j = (decide (j = i) || test b j) := by
  rw [test_eq, test_eq, set]
  by_cases hbyte : j / 8 = i / 8
  · dsimp only
    rw [hbyte, update_self, UInt8.toNat_or, toNat_mask, Nat.testBit_or,
      Nat.testBit_two_pow, place_eq_iff hbyte, Bool.or_comm]
  · have hne : j ≠ i := fun heq => hbyte (by rw [heq])
    dsimp only
    rw [update_of_ne hbyte, decide_eq_false hne, Bool.false_or]

/-- Bits after clearing one. -/
theorem test_clear (b : Bitmap) (i j : Nat) :
    test (clear b i) j = (!decide (j = i) && test b j) := by
  rw [test_eq, test_eq, clear]
  by_cases hbyte : j / 8 = i / 8
  · dsimp only
    rw [hbyte, update_self, UInt8.toNat_and, Nat.testBit_and,
      testBit_not _ (Nat.mod_lt _ (by decide)), toNat_mask, Nat.testBit_two_pow, place_eq_iff hbyte,
      Bool.and_comm]
  · have hne : j ≠ i := fun heq => hbyte (by rw [heq])
    dsimp only
    rw [update_of_ne hbyte, decide_eq_false hne, Bool.not_false, Bool.true_and]

end Bitmap

end NasuaOS.Base
