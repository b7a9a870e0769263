import Mathlib.Data.Nat.Bitwise

/-!
# Ranges of bits

A mask of consecutive bits, and what is left of a number under it.
-/

namespace NasuaOS.Base

/-- The mask of bits `low` to `high - 1`. -/
def bitRange (low high : Nat) : Nat := (2 ^ (high - low) - 1) <<< low

/-- The bits of a range. -/
@[simp] theorem testBit_bitRange (low high i : Nat) :
    (bitRange low high).testBit i = decide (low ≤ i ∧ i < high) := by
  rw [bitRange, Nat.testBit_shiftLeft, Nat.testBit_two_pow_sub_one, ← Bool.decide_and]
  apply decide_eq_decide.mpr
  omega

/-- One bit that may be set. -/
theorem testBit_ite_two_pow (b : Bool) (k i : Nat) :
    (if b then 2 ^ k else 0).testBit i = (b && decide (k = i)) := by
  cases b with
  | false => simp
  | true => simp [Nat.testBit_two_pow]

/-- The bits of an aligned number below a bound. -/
theorem testBit_of_aligned {low high n i : Nat} (hdvd : 2 ^ low ∣ n) (hlt : n < 2 ^ high)
    (hi : n.testBit i = true) : low ≤ i ∧ i < high := by
  constructor
  · obtain ⟨k, rfl⟩ := hdvd
    rw [Nat.testBit_two_pow_mul, Bool.and_eq_true, decide_eq_true_eq] at hi
    exact hi.1
  · by_contra hhigh
    have hpow : 2 ^ high ≤ 2 ^ i := Nat.pow_le_pow_right (by decide) (by omega)
    rw [Nat.testBit_lt_two_pow (by omega)] at hi
    cases hi

/-- Masking an aligned number with low and high bits added gives the number back. -/
theorem or_and_bitRange {low high n extra : Nat} (hdvd : 2 ^ low ∣ n) (hlt : n < 2 ^ high)
    (hextra : ∀ i, extra.testBit i = true → i < low ∨ high ≤ i) :
    (n ||| extra) &&& bitRange low high = n := by
  apply Nat.eq_of_testBit_eq
  intro i
  rw [Nat.testBit_and, Nat.testBit_or, testBit_bitRange]
  cases hn : n.testBit i with
  | true =>
    have hrange := testBit_of_aligned hdvd hlt hn
    simp [hrange]
  | false =>
    cases he : extra.testBit i with
    | false => rfl
    | true =>
      have hout := hextra i he
      simp only [Bool.false_or, Bool.true_and, decide_eq_false_iff_not]
      omega

end NasuaOS.Base
