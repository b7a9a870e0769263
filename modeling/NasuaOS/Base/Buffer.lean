import NasuaOS.Base.Words
import Mathlib.Data.List.GetD

/-!
# Fixed-size byte buffers

A buffer of `n` bytes with the stores that C code performs on it: clearing a range, copying a
byte string followed by its terminator, and laying out a little-endian word. A store outside
the buffer is dropped and a load outside it returns zero, so every operation is total; the
laws below are about offsets inside the buffer.
-/

namespace NasuaOS.Base

/-- A byte array of fixed size `n`. -/
structure Buffer (n : Nat) where
  data : Fin n → UInt8

namespace Buffer

variable {n : Nat}

/-- Load one byte; zero outside the buffer. -/
def byte (b : Buffer n) (k : Nat) : UInt8 := if h : k < n then b.data ⟨k, h⟩ else 0

/-- Build a buffer from its byte at every offset. -/
def ofFn (f : Nat → UInt8) : Buffer n := ⟨fun i => f i.val⟩

/-- The all-zero buffer. -/
def zero : Buffer n := ofFn fun _ => 0

/-- Clear `len` bytes from `off` on. -/
def clear (b : Buffer n) (off len : Nat) : Buffer n :=
  ofFn fun k => if off ≤ k ∧ k < off + len then 0 else b.byte k

/-- Copy a byte string and its terminating zero to `off`. -/
def putString (b : Buffer n) (off : Nat) (s : Bytes) : Buffer n :=
  ofFn fun k =>
    if off ≤ k ∧ k < off + s.length then s.getD (k - off) 0
    else if k = off + s.length then 0
    else b.byte k

/-- Store one byte. -/
def putByte (b : Buffer n) (off : Nat) (value : UInt8) : Buffer n :=
  ofFn fun k => if k = off then value else b.byte k

/-- The 32-bit little-endian word at `off`. -/
def u32 (b : Buffer n) (off : Nat) : Nat := leNat b.byte off 4

/-- Lay out a 32-bit little-endian word at `off`. -/
def putU32 (b : Buffer n) (off value : Nat) : Buffer n :=
  ofFn fun k => if off ≤ k ∧ k < off + 4 then leByte value (k - off) else b.byte k

/-- Loading inside the buffer observes the byte function it was built from. -/
theorem byte_ofFn (f : Nat → UInt8) (k : Nat) (h : k < n) : (ofFn f : Buffer n).byte k = f k := by
  simp [byte, ofFn, h]

private theorem byte_of_le (b : Buffer n) (k : Nat) (h : n ≤ k) : b.byte k = 0 := by
  simp [byte, Nat.not_lt.mpr h]

/-- Every byte of the zero buffer is zero. -/
@[simp] theorem byte_zero (k : Nat) : (zero : Buffer n).byte k = 0 := by
  by_cases h : k < n
  · rw [zero, byte_ofFn _ _ h]
  · exact byte_of_le _ _ (by omega)

/-- Bytes after clearing a range. -/
theorem byte_clear (b : Buffer n) (off len k : Nat) (h : k < n) :
    (b.clear off len).byte k = if off ≤ k ∧ k < off + len then 0 else b.byte k := by
  rw [clear, byte_ofFn _ _ h]

/-- Bytes after copying a string. -/
theorem byte_putString (b : Buffer n) (off : Nat) (s : Bytes) (k : Nat) (h : k < n) :
    (b.putString off s).byte k = if off ≤ k ∧ k < off + s.length then s.getD (k - off) 0
      else if k = off + s.length then 0 else b.byte k := by
  rw [putString, byte_ofFn _ _ h]

/-- Bytes after storing one. -/
theorem byte_putByte (b : Buffer n) (off : Nat) (value : UInt8) (k : Nat) (h : k < n) :
    (b.putByte off value).byte k = if k = off then value else b.byte k := by
  rw [putByte, byte_ofFn _ _ h]

/-- Bytes after laying out a word. -/
theorem byte_putU32 (b : Buffer n) (off value k : Nat) (h : k < n) : (b.putU32 off value).byte k =
      if off ≤ k ∧ k < off + 4 then leByte value (k - off) else b.byte k := by
  rw [putU32, byte_ofFn _ _ h]

/-- A word depends only on its four bytes. -/
theorem u32_congr {a b : Buffer n} (off : Nat)
    (h : ∀ k, k < 4 → a.byte (off + k) = b.byte (off + k)) : a.u32 off = b.u32 off :=
  leNat_congr a.byte b.byte off 4 h

/-- A word laid out inside the buffer is read back, cut to 32 bits. -/
theorem u32_putU32 (b : Buffer n) (off value : Nat) (h : off + 4 ≤ n) :
    (b.putU32 off value).u32 off = value % 2 ^ 32 := by
  apply leNat_leByte
  intro k hk
  rw [byte_putU32 _ _ _ _ (by omega), if_pos (by omega), Nat.add_sub_cancel_left]

/-- A word laid out elsewhere does not change a disjoint word. -/
theorem u32_putU32_of_disjoint (b : Buffer n) (off other value : Nat) (h : other + 4 ≤ n)
    (hd : other + 4 ≤ off ∨ off + 4 ≤ other) : (b.putU32 off value).u32 other = b.u32 other := by
  apply u32_congr
  intro k hk
  rw [byte_putU32 _ _ _ _ (by omega), if_neg (by omega)]

end Buffer
end NasuaOS.Base
