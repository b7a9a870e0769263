import NasuaOS.Base.Triples
import NasuaOS.Base.OnesComplement

/-!
# Byte strings behind pointers

A pointer into a byte string is the rest of the string from there on, so adding to a pointer is
`drop`. Loads and stores are checked: a load is possible where the rest has a byte, a store
where the buffer has one. Numbers are in network order.
-/

namespace NasuaOS.Base

open List

variable {lazy : Prop} {xs ys zs old new bytes : Bytes} {off i n : Nat}

/-- Load one byte. -/
def byteAt (bytes : Bytes) (i : Nat) : Reading UInt8 :=
  match bytes[i]? with
  | some b => .ok b
  | none => .error .outOfBounds

/-- Load `n` bytes. -/
def bytesAt (bytes : Bytes) (off n : Nat) : Reading Bytes :=
  if off + n ≤ bytes.length then .ok ((bytes.drop off).take n) else .error .outOfBounds

/-- Store bytes in a row. -/
def putBytes (buffer : Bytes) (off : Nat) (bytes : Bytes) : Reading Bytes :=
  if off + bytes.length ≤ buffer.length then
    .ok (buffer.take off ++ bytes ++ buffer.drop (off + bytes.length))
  else .error .outOfBounds

/-- Store bytes at several places, one after the other. -/
def putAll (buffer : Bytes) : List (Nat × Bytes) → Reading Bytes
  | [] => .ok buffer
  | (off, bytes) :: rest => do putAll (← putBytes buffer off bytes) rest

/-- A 16-bit number in network order. -/
def readBe16 (bytes : Bytes) (i : Nat) : Reading Nat := do
  let high ← byteAt bytes i
  let low ← byteAt bytes (i + 1)
  return high.toNat * 256 + low.toNat

/-- Four bytes as a number. -/
def be32 (a b c d : UInt8) : UInt32 :=
  UInt32.ofNat (a.toNat * 2 ^ 24 + b.toNat * 2 ^ 16 + c.toNat * 2 ^ 8 + d.toNat)

/-- A 32-bit number in network order. -/
def readBe32 (bytes : Bytes) (i : Nat) : Reading UInt32 := do
  let a ← byteAt bytes i
  let b ← byteAt bytes (i + 1)
  let c ← byteAt bytes (i + 2)
  let d ← byteAt bytes (i + 3)
  return be32 a b c d

/-- The bytes of a 32-bit number in network order. -/
def bytes32 (value : UInt32) : Bytes :=
  [UInt8.ofNat (value.toNat / 2 ^ 24), UInt8.ofNat (value.toNat / 2 ^ 16),
    UInt8.ofNat (value.toNat / 2 ^ 8), UInt8.ofNat value.toNat]

/-- The checksum of the first `length` bytes. -/
def checksum (bytes : Bytes) (length : Nat) : Reading Nat := do
  return onesChecksum (← bytesAt bytes 0 length)

/-- Two bytes. -/
@[simp] theorem length_bytes16 (value : Nat) : (bytes16 value).length = 2 := rfl

/-- Four bytes. -/
@[simp] theorem length_bytes32 (value : UInt32) : (bytes32 value).length = 4 := rfl

/-- A byte inside is loaded. -/
theorem byteAt_eq (h : i < bytes.length) : byteAt bytes i = .ok bytes[i] := by
  rw [byteAt, getElem?_eq_getElem h]

private theorem bytesAt_eq (h : off + n ≤ bytes.length) :
    bytesAt bytes off n = .ok ((bytes.drop off).take n) := if_pos h

private theorem putBytes_eq (h : off + new.length ≤ bytes.length) :
    putBytes bytes off new = .ok (bytes.take off ++ new ++ bytes.drop (off + new.length)) :=
  if_pos h

private theorem length_putBytes (h : putBytes bytes off new = .ok xs) :
    xs.length = bytes.length := by
  rw [putBytes] at h
  split at h
  · cases h
    simp only [length_append, length_take, length_drop]
    omega
  · cases h

private theorem length_bytesAt (h : bytesAt bytes off n = .ok xs) : xs.length = n := by
  rw [bytesAt] at h
  split at h
  · cases h
    simp only [length_take, length_drop]
    omega
  · cases h

/-- A load of the middle part. -/
theorem bytesAt_append (xs ys zs : Bytes) :
    bytesAt (xs ++ (ys ++ zs)) xs.length ys.length = .ok ys := by
  rw [bytesAt_eq, drop_left, take_left]
  simp only [length_append]
  omega

/-- A store over the middle part. -/
theorem putBytes_append (h : old.length = new.length) :
    putBytes (xs ++ (old ++ zs)) xs.length new = .ok (xs ++ (new ++ zs)) := by
  rw [putBytes_eq, take_left, append_assoc, ← h, ← drop_drop, drop_left,
    drop_left]
  simp only [length_append]
  omega

private theorem readBe16_lt (h : readBe16 bytes i = .ok n) : n < 2 ^ 16 := by
  obtain ⟨high, -, h⟩ := bind_eq_ok.mp h
  obtain ⟨low, -, h⟩ := bind_eq_ok.mp h
  cases h
  have hhigh := high.toNat_lt
  have hlow := low.toNat_lt
  omega

namespace Yields

/-- A byte inside. -/
theorem byteAt (h : i < bytes.length) : Yields lazy (byteAt bytes i) fun _ => True := by
  rw [byteAt_eq h]
  exact ok trivial

/-- Bytes inside. -/
theorem bytesAt (h : off + n ≤ bytes.length) :
    Yields lazy (bytesAt bytes off n) fun read => read.length = n := by
  have hlength := bytesAt_eq h
  rw [hlength]
  exact ok (length_bytesAt hlength)

/-- A store inside. -/
theorem putBytes (h : off + new.length ≤ bytes.length) :
    Yields lazy (putBytes bytes off new) fun buffer => buffer.length = bytes.length := by
  have hlength := putBytes_eq h
  rw [hlength]
  exact ok (length_putBytes hlength)

/-- Stores inside a buffer of a known size. -/
theorem putAll {writes : List (Nat × Bytes)} {size : Nat} (hsize : bytes.length = size)
    (h : ∀ w ∈ writes, w.1 + w.2.length ≤ size) :
    Yields lazy (putAll bytes writes) fun buffer => buffer.length = size := by
  induction writes generalizing bytes with
  | nil => exact ok hsize
  | cons w rest ih =>
    have hfirst := h w mem_cons_self
    refine bind (putBytes (hsize ▸ hfirst)) fun buffer hbuffer => ?_
    exact ih (hbuffer.trans hsize) fun w hw => h w (mem_cons_of_mem _ hw)

/-- A 16-bit number inside. -/
theorem readBe16 (h : i + 2 ≤ bytes.length) :
    Yields lazy (readBe16 bytes i) fun n => n < 2 ^ 16 := by
  have hread : ∃ n, Base.readBe16 bytes i = .ok n := by
    rw [Base.readBe16, byteAt_eq (by omega), byteAt_eq (by omega)]
    exact ⟨_, rfl⟩
  obtain ⟨n, hn⟩ := hread
  rw [hn]
  exact ok (readBe16_lt hn)

/-- A 32-bit number inside. -/
theorem readBe32 (h : i + 4 ≤ bytes.length) : Yields lazy (readBe32 bytes i) fun _ => True := by
  rw [Base.readBe32, byteAt_eq (by omega), byteAt_eq (by omega), byteAt_eq (by omega),
    byteAt_eq (by omega)]
  exact ok trivial

/-- A checksum over bytes inside. -/
theorem checksum (h : n ≤ bytes.length) :
    Yields lazy (checksum bytes n) fun sum => sum < 2 ^ 16 := by
  refine bind (bytesAt (by omega)) fun read _ => pure ?_
  exact complement_lt _

end Yields

/-- The bytes of a 16-bit number give it back. -/
theorem readBe16_bytes16 (xs zs : Bytes) {value : Nat} (h : value < 2 ^ 16) :
    readBe16 (xs ++ (bytes16 value ++ zs)) xs.length = .ok value := by
  have hfirst : byteAt (xs ++ (bytes16 value ++ zs)) xs.length = .ok (UInt8.ofNat (value / 256)) := by
    rw [byteAt, getElem?_append_right le_rfl, Nat.sub_self]
    rfl
  have hsecond : byteAt (xs ++ (bytes16 value ++ zs)) (xs.length + 1) =
      .ok (UInt8.ofNat value) := by
    rw [byteAt, getElem?_append_right (Nat.le_add_right _ _), Nat.add_sub_cancel_left]
    rfl
  rw [readBe16, hfirst, hsecond]
  change Except.ok _ = _
  rw [UInt8.toNat_ofNat', UInt8.toNat_ofNat', Except.ok.injEq]
  omega

/-- The bytes of a 32-bit number give it back. -/
theorem readBe32_bytes32 (xs zs : Bytes) (value : UInt32) :
    readBe32 (xs ++ (bytes32 value ++ zs)) xs.length = .ok value := by
  have hbyte : ∀ k, byteAt (xs ++ (bytes32 value ++ zs)) (xs.length + k) =
      byteAt (bytes32 value ++ zs) k := by
    intro k
    rw [byteAt, byteAt, getElem?_append_right (Nat.le_add_right _ _), Nat.add_sub_cancel_left]
  have hzero := hbyte 0
  rw [Nat.add_zero] at hzero
  rw [readBe32, hzero, hbyte, hbyte, hbyte]
  change Except.ok (be32 _ _ _ _) = _
  rw [be32, Except.ok.injEq]
  apply UInt32.toNat_inj.mp
  have hlt := value.toNat_lt
  simp only [UInt8.toNat_ofNat', UInt32.toNat_ofNat']
  omega

/-- Fields in ascending order, with zeros between them. -/
def layout : Nat → List (Nat × Bytes) → Bytes
  | _, [] => []
  | start, (off, bytes) :: rest =>
    replicate (off - start) 0 ++ (bytes ++ layout (off + bytes.length) rest)

/-- Where the last of the fields ends, if they are in ascending order and do not overlap. -/
def fieldsEnd : Nat → List (Nat × Bytes) → Option Nat
  | start, [] => some start
  | start, (off, bytes) :: rest => if start ≤ off then fieldsEnd (off + bytes.length) rest else none

variable {writes : List (Nat × Bytes)}

private theorem fieldsEnd_eq {start stop : Nat} (h : fieldsEnd start writes = some stop) :
    stop = start + (layout start writes).length := by
  induction writes generalizing start with
  | nil =>
    cases h
    rfl
  | cons w rest ih =>
    rw [fieldsEnd] at h
    split at h
    · next hle =>
      have hrest := ih h
      simp only [layout, length_append, length_replicate]
      omega
    · cases h

private theorem putAll_layout {writes : List (Nat × Bytes)} {xs : Bytes} {k stop : Nat}
    (h : fieldsEnd xs.length writes = some stop) (hstop : stop ≤ xs.length + k) :
    putAll (xs ++ replicate k 0) writes =
      .ok (xs ++ layout xs.length writes ++ replicate (xs.length + k - stop) 0) := by
  induction writes generalizing xs k with
  | nil =>
    cases h
    rw [putAll, layout, append_nil, Nat.add_sub_cancel_left]
  | cons w rest ih =>
    obtain ⟨off, bytes⟩ := w
    rw [fieldsEnd] at h
    split at h
    · next hle =>
      have hend := fieldsEnd_eq h
      -- the zeros: those before the field, those under it and those behind it
      have hsplit : replicate k (0 : UInt8) = replicate (off - xs.length) 0 ++
          (replicate bytes.length 0 ++
            replicate (xs.length + k - (off + bytes.length)) 0) := by
        rw [← replicate_add, ← replicate_add]
        congr 1
        omega
      have hoff : (xs ++ replicate (off - xs.length) 0).length = off := by
        rw [length_append, length_replicate]
        omega
      have hput : putBytes (xs ++ replicate k 0) off bytes =
          .ok ((xs ++ replicate (off - xs.length) 0 ++ bytes) ++
            replicate (xs.length + k - (off + bytes.length)) 0) := by
        rw [hsplit, ← append_assoc, append_assoc _ bytes, ← putBytes_append, hoff]
        exact length_replicate
      have hlength : (xs ++ replicate (off - xs.length) 0 ++ bytes).length =
          off + bytes.length := by
        rw [length_append, hoff]
      rw [putAll, hput]
      change putAll _ rest = _
      have hrest : off + bytes.length + (xs.length + k - (off + bytes.length)) - stop =
          xs.length + k - stop := by
        omega
      rw [ih (hlength ▸ h) (by omega), hlength, layout, hrest]
      simp only [append_assoc]
    · cases h

/-- Stores of fields in ascending order into a buffer that is all zero. -/
theorem putAll_zeros {k : Nat} (stop : Nat) (h : fieldsEnd 0 writes = some stop) (hstop : stop ≤ k) :
    putAll (replicate k 0) writes = .ok (layout 0 writes ++ replicate (k - stop) 0) := by
  have hput := @putAll_layout writes [] k stop h (by rw [length_nil]; omega)
  rw [length_nil, Nat.zero_add] at hput
  exact hput

/-- A store of bytes over zeros. -/
theorem putBytes_zeros (xs bytes : Bytes) {k : Nat} (h : bytes.length ≤ k) :
    putBytes (xs ++ replicate k 0) xs.length bytes =
      .ok (xs ++ bytes ++ replicate (k - bytes.length) 0) := by
  have hsplit : replicate k (0 : UInt8) =
      replicate bytes.length 0 ++ replicate (k - bytes.length) 0 := by
    rw [← replicate_add]
    congr 1
    omega
  rw [hsplit, putBytes_append length_replicate, append_assoc]

/-- A load of the first part. -/
theorem bytesAt_left (xs ys : Bytes) : bytesAt (xs ++ ys) 0 xs.length = .ok xs :=
  bytesAt_append [] xs ys

/-- The checksum of the first part. -/
theorem checksum_append (xs ys : Bytes) :
    checksum (xs ++ ys) xs.length = .ok (onesChecksum xs) := by
  rw [checksum, bytesAt_left]
  rfl

end NasuaOS.Base
