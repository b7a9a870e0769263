import Mathlib.Algebra.Ring.Nat

/-!
# One's-complement sums

The Internet checksum of a byte string: the sum of its big-endian 16-bit words, an odd last byte
taken as the high half of a word, with the carries added back and the result complemented. Up to the
two representations of zero this is arithmetic modulo 65535, so a string that contains its own
checksum has checksum zero.
-/

namespace NasuaOS.Base

open List

/-- The sum of the words of a byte string. -/
def wordSum : List UInt8 → Nat
  | [] => 0
  | [a] => a.toNat * 256
  | a :: b :: rest => a.toNat * 256 + b.toNat + wordSum rest

/-- Add the carries back, at most `rounds` times. -/
def foldCarries : Nat → Nat → Nat
  | 0, sum => sum
  | rounds + 1, sum =>
    if sum / 2 ^ 16 = 0 then sum else foldCarries rounds (sum % 2 ^ 16 + sum / 2 ^ 16)

/-- The rounds that a 32-bit sum can take. -/
def carryRounds : Nat := 3

/-- The complement of a sum with its carries added back. -/
def complement (sum : Nat) : Nat := 2 ^ 16 - 1 - foldCarries carryRounds sum

/-- The checksum of a byte string. -/
def onesChecksum (bytes : List UInt8) : Nat := complement (wordSum bytes)

variable {sum : Nat}

private theorem foldCarries_eq (h : sum < 2 ^ 32) :
    foldCarries carryRounds sum = if sum = 0 then 0 else (sum - 1) % 65535 + 1 := by
  by_cases hzero : sum = 0
  · subst hzero
    rfl
  · rw [if_neg hzero]
    simp only [carryRounds, foldCarries]
    split
    · omega
    · split
      · omega
      · split
        · omega
        · omega

/-- A checksum is a 16-bit word. -/
theorem complement_lt (sum : Nat) : complement sum < 2 ^ 16 := by
  rw [complement]
  omega

private theorem complement_eq_zero (h : sum < 2 ^ 32) (hpos : 0 < sum) (hmod : sum % 65535 = 0) :
    complement sum = 0 := by
  rw [complement, foldCarries_eq h, if_neg (by omega)]
  omega

private theorem add_complement (h : sum < 2 ^ 32) :
    (sum + complement sum) % 65535 = 0 ∧ 0 < sum + complement sum := by
  rw [complement, foldCarries_eq h]
  split
  · subst sum
    decide
  · omega

private theorem add_of_complement_eq_zero (h : sum < 2 ^ 32) (hzero : complement sum = 0) :
    (sum + 65535) % 65535 = 0 := by
  have hmod := (add_complement h).1
  rw [hzero] at hmod
  omega

private theorem wordSum_append (xs ys : List UInt8) (h : xs.length % 2 = 0) :
    wordSum (xs ++ ys) = wordSum xs + wordSum ys := by
  induction xs using wordSum.induct with
  | case1 => simp [wordSum]
  | case2 a => simp at h
  | case3 a b rest ih =>
    have heven : rest.length % 2 = 0 := by
      simp only [length_cons] at h
      omega
    simp only [cons_append, wordSum, ih heven]
    omega

private theorem wordSum_le (xs : List UInt8) : wordSum xs ≤ 65535 * ((xs.length + 1) / 2) := by
  induction xs using wordSum.induct with
  | case1 => simp [wordSum]
  | case2 a =>
    have ha := a.toNat_lt
    simp only [wordSum, length_cons, length_nil]
    omega
  | case3 a b rest ih =>
    have ha := a.toNat_lt
    have hb := b.toNat_lt
    simp only [wordSum, length_cons]
    omega

/-- A 16-bit word in network order. -/
def bytes16 (value : Nat) : List UInt8 := [UInt8.ofNat (value / 256), UInt8.ofNat value]

private theorem wordSum_bytes16 {value : Nat} (h : value < 2 ^ 16) :
    wordSum (bytes16 value) = value := by
  simp only [bytes16, wordSum, UInt8.toNat_ofNat']
  omega

private theorem wordSum_field (xs ys : List UInt8) (h : xs.length % 2 = 0) {value : Nat}
    (hvalue : value < 2 ^ 16) :
    wordSum (xs ++ bytes16 value ++ ys) = wordSum (xs ++ bytes16 0 ++ ys) + value := by
  have heven : ∀ v, (xs ++ bytes16 v).length % 2 = 0 := by
    intro v
    simp only [length_append, bytes16, length_cons, length_nil]
    omega
  rw [wordSum_append _ _ (heven _), wordSum_append _ _ (heven _), wordSum_append _ _ h,
    wordSum_append _ _ h, wordSum_bytes16 hvalue, wordSum_bytes16 (by decide)]
  omega

private theorem wordSum_field_le (xs ys : List UInt8) (hlength : xs.length + ys.length < 2 ^ 16) :
    wordSum (xs ++ bytes16 0 ++ ys) ≤ 65535 * 32769 := by
  have hle := wordSum_le (xs ++ bytes16 0 ++ ys)
  simp only [length_append, bytes16, length_cons, length_nil] at hle ⊢
  omega

/-- A string that contains its checksum has checksum zero. -/
theorem onesChecksum_field (xs ys : List UInt8) (h : xs.length % 2 = 0)
    (hlength : xs.length + ys.length < 2 ^ 16) :
    onesChecksum (xs ++ bytes16 (onesChecksum (xs ++ bytes16 0 ++ ys)) ++ ys) = 0 := by
  have hsum := wordSum_field_le xs ys hlength
  have hlt := complement_lt (wordSum (xs ++ bytes16 0 ++ ys))
  have hadd := add_complement (show wordSum (xs ++ bytes16 0 ++ ys) < 2 ^ 32 by omega)
  rw [onesChecksum, onesChecksum, wordSum_field xs ys h hlt]
  exact complement_eq_zero (by omega) hadd.2 hadd.1

/-- So has one with all ones in place of a checksum that is zero. -/
theorem onesChecksum_field_ones (xs ys : List UInt8) (h : xs.length % 2 = 0)
    (hlength : xs.length + ys.length < 2 ^ 16) (hzero : onesChecksum (xs ++ bytes16 0 ++ ys) = 0) :
    onesChecksum (xs ++ bytes16 65535 ++ ys) = 0 := by
  have hsum := wordSum_field_le xs ys hlength
  have hmod := add_of_complement_eq_zero (show wordSum (xs ++ bytes16 0 ++ ys) < 2 ^ 32 by omega)
    hzero
  rw [onesChecksum, wordSum_field xs ys h (by decide)]
  exact complement_eq_zero (by omega) (by omega) hmod

/-- Of all words in one place only one makes the checksum zero, up to the two zeros. -/
theorem word_mod_eq (xs ys : List UInt8) (h : xs.length % 2 = 0)
    (hlength : xs.length + ys.length < 2 ^ 16) {v w : Nat} (hv : v < 2 ^ 16) (hw : w < 2 ^ 16)
    (hvzero : onesChecksum (xs ++ bytes16 v ++ ys) = 0)
    (hwzero : onesChecksum (xs ++ bytes16 w ++ ys) = 0) : v % 65535 = w % 65535 := by
  have hsum := wordSum_field_le xs ys hlength
  rw [onesChecksum, wordSum_field xs ys h hv] at hvzero
  rw [onesChecksum, wordSum_field xs ys h hw] at hwzero
  have hvmod := add_of_complement_eq_zero (by omega) hvzero
  have hwmod := add_of_complement_eq_zero (by omega) hwzero
  omega

end NasuaOS.Base
