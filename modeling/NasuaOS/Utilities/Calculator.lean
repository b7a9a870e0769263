import Mathlib.Tactic.Linarith

/-!
# The square-root key of the calculator

`src/utilities/applications/calculator/src/calculator.cpp:324–329`. A signed overflow ends the run.
-/

namespace NasuaOS.Calculator

/-- A result of signed 32-bit arithmetic. -/
def int32 (n : Int) : Option Int := if -2 ^ 31 ≤ n ∧ n < 2 ^ 31 then some n else none

/-- `while((result + 1) <= value / (result + 1)) result++;` -/
def rootLoop (value : Int) : Nat → Int → Option Int
  | 0, _ => none
  | fuel + 1, result => do
    let next ← int32 (result + 1)
    if next ≤ value.tdiv next then rootLoop value fuel next else some result

/-- The root of a value that is not negative. -/
def squareRoot (value : Int) : Option Int := rootLoop value (value.toNat + 1) 0

-- A root of a 31-bit value has at most 16 bits, so `result + 1` stays in range.
private theorem rootLoop_eq {v : Nat} (hv : v < 2 ^ 31) (fuel r : Nat) (hr : r * r ≤ v)
    (hfuel : v < r + fuel) : ∃ root : Nat,
      rootLoop v fuel r = some (root : Int) ∧ root * root ≤ v ∧ v < (root + 1) * (root + 1) := by
  induction fuel generalizing r with
  | zero => nlinarith
  | succ fuel ih =>
    have hsmall : r < 2 ^ 16 := by nlinarith
    have hnext : int32 ((r : Int) + 1) = some ((r + 1 : Nat) : Int) := if_pos (by omega)
    have htest : ((r + 1 : Nat) : Int) ≤ (v : Int).tdiv ((r + 1 : Nat) : Int) ↔
        (r + 1) * (r + 1) ≤ v := by
      rw [← Int.ofNat_tdiv, Int.ofNat_le, Nat.le_div_iff_mul_le (Nat.succ_pos r)]
    rw [rootLoop, hnext, Option.bind_eq_bind, Option.bind_some]
    by_cases hle : (r + 1) * (r + 1) ≤ v
    · rw [if_pos (htest.mpr hle)]
      exact ih (r + 1) hle (by omega)
    · rw [if_neg (mt htest.mp hle)]
      exact ⟨r, rfl, hr, by omega⟩

/-- The loop ends without overflow at the greatest root. -/
theorem square_root_greatest {v : Nat} (hv : v < 2 ^ 31) :
    ∃ r : Nat, squareRoot v = some (r : Int) ∧ IsGreatest {r | r * r ≤ v} r := by
  obtain ⟨r, heq, hle, hlt⟩ := rootLoop_eq hv (v + 1) 0 (Nat.zero_le v) (by omega)
  refine ⟨r, heq, hle, fun k hk => ?_⟩
  have hk : k * k ≤ v := hk
  by_contra hgt
  nlinarith

/-- The root of ten. -/
theorem square_root_ten :
    ∃ r : Nat, squareRoot 10 = some (r : Int) ∧ IsGreatest {r | r * r ≤ 10} r :=
  square_root_greatest (by decide)

end NasuaOS.Calculator
