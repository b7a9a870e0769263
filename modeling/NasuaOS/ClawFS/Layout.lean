import NasuaOS.Base.Buffer
import NasuaOS.Libc.Strings

/-!
# ClawFS on-disk layout

`src/kernel_64bit/src/system/filesystem/clawfs/clawfs.hpp:4–25`. A directory is one 512-byte
sector read as twelve packed 40-byte entries; a slot whose name starts with a zero byte is
free. Queries and stores below are the ones the kernel performs on such a buffer, at the byte
offsets the packed structures give them.
-/

namespace NasuaOS.ClawFS

open Base Libc

/-- One disk sector. -/
abbrev Sector := Buffer 512

/-- The sectors of a disk. -/
abbrev Disk := Nat → Sector

/-- `CLAWFS_VERSION`. -/
def clawfsVersion : UInt8 := 1

/-- `CLAWFS_START_LBA`, the header sector. -/
def clawfsStartLba : Nat := 100

/-- `CLAWFS_ROOT_SECTOR`. -/
def clawfsRootSector : Nat := 101

/-- `CLAWFS_FILE`. -/
def clawfsFile : Nat := 0

/-- `CLAWFS_DIRECTORY`. -/
def clawfsDirectory : Nat := 1

/-- The two entry types differ. -/
theorem file_ne_directory : clawfsFile ≠ clawfsDirectory := by decide

/-- `CLAWFS_MAX_FILE_SIZE`. -/
def clawfsMaxFileSize : Nat := 32 * 1024 * 1024

/-- Slots of a directory sector, the bound of every entry loop. -/
def slotCount : Nat := 12

/-- `sizeof(CLAWFSEntry)`. -/
def entrySize : Nat := 40

/-- `CLAWFSEntry` without its name, which the kernel only ever compares in place. -/
structure CLAWFSEntry where
  type : Nat
  dataSector : Nat
  entryCount : Nat
  deriving DecidableEq, Repr

/-- The fields of slot `i`. -/
def entryAt (buffer : Sector) (i : Nat) : CLAWFSEntry where
  type := buffer.u32 (entrySize * i + 28)
  dataSector := buffer.u32 (entrySize * i + 32)
  entryCount := buffer.u32 (entrySize * i + 36)

/-- `entries[i].name[0] != '\0'`. -/
def used (buffer : Sector) (i : Nat) : Bool := buffer.byte (entrySize * i) != 0

/-- `strcmp(entries[i].name, name) == 0`. -/
def named (buffer : Sector) (name : Bytes) (i : Nat) : Bool :=
  strcmp (fun k => buffer.byte (entrySize * i + k)) name == 0

/-- First slot, in loop order, that satisfies a test. -/
def firstSlot (p : Nat → Bool) : Option Nat := (List.range slotCount).find? p

/-- Slot a lookup stops at: used, with the name. `clawfs.cpp:151–167`. -/
def findSlot (buffer : Sector) (name : Bytes) : Option Nat :=
  firstSlot fun i => used buffer i && named buffer name i

/-- First free slot, the one `mkdir` and `create` fill. -/
def freeSlot (buffer : Sector) : Option Nat := firstSlot fun i => !used buffer i

/-- Slot `clawfs_write_file` patches: the name, and a regular file. `clawfs.cpp:860–862`. -/
def fileSlot (buffer : Sector) (name : Bytes) : Option Nat :=
  firstSlot fun i => named buffer name i && decide ((entryAt buffer i).type = clawfsFile)

/-- Slot `clawfs_rm` stops at: used, with the name and the type. `clawfs.cpp:903–918`. -/
def removalSlot (buffer : Sector) (name : Bytes) (type : Nat) : Option Nat :=
  firstSlot fun i =>
    used buffer i && named buffer name i && decide ((entryAt buffer i).type = type)

/-- Every slot is free, the test that a directory may be removed. `clawfs.cpp:934–942`. -/
def emptyDirectory (buffer : Sector) : Bool := (firstSlot (used buffer)).isNone

/-- Fill slot `i` with a fresh entry: cleared, named, typed, with its sector and no length.
`clawfs.cpp:229–235,474–482`. -/
def fillSlot (buffer : Sector) (i : Nat) (name : Bytes) (type sector : Nat) : Sector :=
  ((((buffer.clear (entrySize * i) entrySize).putString (entrySize * i) name).putU32
    (entrySize * i + 28) type).putU32 (entrySize * i + 32) sector).putU32 (entrySize * i + 36) 0

/-- Point slot `i` at its contents. `clawfs.cpp:864–865`. -/
def patchSlot (buffer : Sector) (i sector length : Nat) : Sector :=
  (buffer.putU32 (entrySize * i + 32) sector).putU32 (entrySize * i + 36) length

/-- Free slot `i`. `clawfs.cpp:946`. -/
def clearSlot (buffer : Sector) (i : Nat) : Sector := buffer.clear (entrySize * i) entrySize

/-- The `CLAWFSHeader` that formatting writes. `clawfs.cpp:259–266`. -/
def headerBuffer : Sector :=
  Buffer.ofFn fun k => if k < 6 then (ascii ['C', 'L', 'A', 'W', 'F', 'S']).getD k 0
    else if k = 6 then clawfsVersion else 0

/-- The header check: signature, then version. `clawfs.cpp:571–579`. -/
def headerValid (buffer : Sector) : Bool :=
  (List.range 6).all (fun k =>
    buffer.byte k == (ascii ['C', 'L', 'A', 'W', 'F', 'S']).getD k 0) &&
    buffer.byte 6 == clawfsVersion

/-- Sectors an entry owns: one for a directory, the contents rounded up for a file. -/
def ownedCount (e : CLAWFSEntry) : Nat :=
  if e.type = clawfsDirectory then 1 else max 1 ((e.entryCount + 511) / 512)

/-- Two buffers agree on every byte of slot `i`. -/
def SameSlot (a b : Sector) (i : Nat) : Prop :=
  ∀ k, k < entrySize → a.byte (entrySize * i + k) = b.byte (entrySize * i + k)

/-- The name of slot `i` ends inside its 28 bytes. -/
def Terminated (buffer : Sector) (i : Nat) : Prop :=
  ∃ k, k < 28 ∧ buffer.byte (entrySize * i + k) = 0

variable {a b : Sector} {i : Nat}

/-- Equal slots hold equal fields. -/
theorem SameSlot.entryAt_eq (h : SameSlot a b i) : entryAt a i = entryAt b i := by
  have word (off : Nat) (ho : off + 4 ≤ entrySize) :
      a.u32 (entrySize * i + off) = b.u32 (entrySize * i + off) := by
    apply Buffer.u32_congr
    intro k hk
    rw [Nat.add_assoc]
    exact h (off + k) (by omega)
  simp only [entryAt, word 28 (by decide), word 32 (by decide), word 36 (by decide)]

/-- Equal slots are used alike. -/
theorem SameSlot.used_eq (h : SameSlot a b i) : used a i = used b i := by
  have h0 := h 0 (by decide)
  simp only [Nat.add_zero] at h0
  rw [used, used, h0]

/-- Equal slots with a terminated name answer to the same names. -/
theorem SameSlot.named_eq (h : SameSlot a b i) (ht : Terminated a i) (name : Bytes) :
    named a name i = named b name i := by
  obtain ⟨stop, hs, hz⟩ := ht
  rw [named, named]
  rw [strcmp_congr _ (fun k => b.byte (entrySize * i + k)) stop name _ hz]
  intro k hk
  exact h k (by simp only [entrySize]; omega)

/-- Equal slots have names that end alike. -/
theorem SameSlot.terminated (h : SameSlot a b i) (ht : Terminated a i) : Terminated b i := by
  obtain ⟨stop, hs, hz⟩ := ht
  exact ⟨stop, hs, by rw [← h stop (by simp only [entrySize]; omega)]; exact hz⟩

/-- A slot answers to exactly the string it holds. -/
theorem named_iff_holds (buffer : Sector) (name : Bytes) (i : Nat) (h0 : (0 : UInt8) ∉ name) :
    named buffer name i = true ↔ Holds (fun k => buffer.byte (entrySize * i + k)) name := by
  rw [named, beq_iff_eq]
  exact strcmp_eq_zero_iff _ name h0

/-- A slot that answers to a nonempty name is in use. -/
theorem used_of_holds {buffer : Sector} {name : Bytes} (h0 : (0 : UInt8) ∉ name)
    (hne : name ≠ []) (h : Holds (fun k => buffer.byte (entrySize * i + k)) name) :
    used buffer i = true := by
  cases name with
  | nil => exact absurd rfl hne
  | cons c rest =>
    have hc := h.1 0 (by simp)
    simp only [Nat.add_zero, List.getD_cons_zero] at hc
    rw [used, hc, bne_iff_ne]
    rintro rfl
    exact h0 (by simp)

section

variable (buffer : Sector)

/-- Filling a slot leaves the earlier slots alone, and the later ones when the name fits. -/
theorem sameSlot_fillSlot (i j : Nat) (name : Bytes) (type sector : Nat) (hj : j < slotCount)
    (hij : i ≠ j) (hn : j < i ∨ name.length < 28) :
    SameSlot (fillSlot buffer i name type sector) buffer j := by
  intro k hk
  simp only [entrySize, slotCount] at *
  have hb : 40 * j + k < 512 := by omega
  simp only [fillSlot, entrySize, Buffer.byte_putU32 _ _ _ _ hb, Buffer.byte_putString _ _ _ _ hb,
    Buffer.byte_clear _ _ _ _ hb]
  repeat rw [if_neg (by omega)]

/-- Patching a slot leaves the other slots alone. -/
theorem sameSlot_patchSlot (i j sector length : Nat) (hj : j < slotCount) (hij : i ≠ j) :
    SameSlot (patchSlot buffer i sector length) buffer j := by
  intro k hk
  simp only [entrySize, slotCount] at *
  have hb : 40 * j + k < 512 := by omega
  simp only [patchSlot, entrySize, Buffer.byte_putU32 _ _ _ _ hb]
  repeat rw [if_neg (by omega)]

/-- Patching a slot leaves its name alone. -/
theorem byte_patchSlot_name (i sector length k : Nat) (hi : i < slotCount) (hk : k < 28) :
    (patchSlot buffer i sector length).byte (entrySize * i + k) =
      buffer.byte (entrySize * i + k) := by
  simp only [patchSlot, entrySize, slotCount] at hi ⊢
  have hb : 40 * i + k < 512 := by omega
  rw [Buffer.byte_putU32 _ _ _ _ hb, if_neg (by omega), Buffer.byte_putU32 _ _ _ _ hb,
    if_neg (by omega)]

/-- Clearing a slot leaves the other slots alone. -/
theorem sameSlot_clearSlot (i j : Nat) (hj : j < slotCount) (hij : i ≠ j) :
    SameSlot (clearSlot buffer i) buffer j := by
  intro k hk
  simp only [entrySize, slotCount] at *
  have hb : 40 * j + k < 512 := by omega
  simp only [clearSlot, entrySize, Buffer.byte_clear _ _ _ _ hb]
  rw [if_neg (by omega)]

/-- A cleared slot is free. -/
theorem used_clearSlot (i : Nat) (hi : i < slotCount) : used (clearSlot buffer i) i = false := by
  simp only [slotCount] at hi
  have hb : 40 * i < 512 := by omega
  simp [used, clearSlot, entrySize, Buffer.byte_clear _ _ _ _ hb]

/-- Fields of a filled slot. -/
theorem entryAt_fillSlot (i : Nat) (name : Bytes) (type sector : Nat) (hi : i < slotCount)
    (ht : type < 2 ^ 32) (hs : sector < 2 ^ 32) :
    entryAt (fillSlot buffer i name type sector) i = ⟨type, sector, 0⟩ := by
  simp only [slotCount] at hi
  simp only [entryAt, fillSlot, entrySize]
  congr 1
  · rw [Buffer.u32_putU32_of_disjoint _ _ _ _ (by omega) (by omega),
      Buffer.u32_putU32_of_disjoint _ _ _ _ (by omega) (by omega),
      Buffer.u32_putU32 _ _ _ (by omega), Nat.mod_eq_of_lt ht]
  · rw [Buffer.u32_putU32_of_disjoint _ _ _ _ (by omega) (by omega),
      Buffer.u32_putU32 _ _ _ (by omega), Nat.mod_eq_of_lt hs]
  · rw [Buffer.u32_putU32 _ _ _ (by omega), Nat.zero_mod]

/-- Fields of a patched slot: the type is kept. -/
theorem entryAt_patchSlot (i sector length : Nat) (hi : i < slotCount) (hs : sector < 2 ^ 32)
    (hl : length < 2 ^ 32) :
    entryAt (patchSlot buffer i sector length) i = ⟨(entryAt buffer i).type, sector, length⟩ := by
  simp only [slotCount] at hi
  simp only [entryAt, patchSlot, entrySize]
  congr 1
  · rw [Buffer.u32_putU32_of_disjoint _ _ _ _ (by omega) (by omega),
      Buffer.u32_putU32_of_disjoint _ _ _ _ (by omega) (by omega)]
  · rw [Buffer.u32_putU32_of_disjoint _ _ _ _ (by omega) (by omega),
      Buffer.u32_putU32 _ _ _ (by omega), Nat.mod_eq_of_lt hs]
  · rw [Buffer.u32_putU32 _ _ _ (by omega), Nat.mod_eq_of_lt hl]

private theorem byte_fillSlot_name (i : Nat) (name : Bytes) (type sector : Nat) {k : Nat}
    (hi : i < slotCount) (hk : k < 28) :
    (fillSlot buffer i name type sector).byte (entrySize * i + k) = name.getD k 0 := by
  simp only [slotCount] at hi
  have hb : 40 * i + k < 512 := by omega
  simp only [fillSlot, entrySize, Buffer.byte_putU32 _ _ _ _ hb, Buffer.byte_putString _ _ _ _ hb,
    Buffer.byte_clear _ _ _ _ hb]
  rw [if_neg (by omega), if_neg (by omega), if_neg (by omega)]
  by_cases h : k < name.length
  · rw [if_pos (by omega), Nat.add_sub_cancel_left]
  · rw [if_neg (by omega), if_pos (show 40 * i ≤ 40 * i + k ∧ 40 * i + k < 40 * i + 40 by omega),
      ite_self, List.getD_eq_default _ _ (by omega)]

/-- A filled slot holds exactly its name. -/
theorem holds_fillSlot (i : Nat) (name : Bytes) (type sector : Nat) (hi : i < slotCount)
    (hn : name.length < 28) :
    Holds (fun k => (fillSlot buffer i name type sector).byte (entrySize * i + k)) name := by
  constructor
  · intro k hk
    exact byte_fillSlot_name _ _ _ _ _ hi (by omega)
  · dsimp only
    rw [byte_fillSlot_name _ _ _ _ _ hi hn, List.getD_eq_default _ _ le_rfl]

end

end NasuaOS.ClawFS
