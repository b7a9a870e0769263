import NasuaOS.Base.Bitmap
import NasuaOS.Base.Stateful
import Mathlib.Data.Finset.Card
import Mathlib.Data.List.Range

/-!
# Physical memory manager

`src/resources/drivers/memory/functions/pmm.cpp`. Counters and addresses are 64-bit. The memory map
is what the bootloader hands over; messages and the unused result of `get_highest_address` are left
out.
-/

namespace NasuaOS.Memory

open Base Finset

/-- `PAGE_SIZE`. -/
def pageSize : Nat := 4096

/-- `limine_memmap_entry`: a range of the physical address space, usable or not. -/
structure MemmapEntry where
  base : Nat
  length : Nat
  usable : Bool
  /-- The range ends inside the 64-bit address space. -/
  inside : base + length < 2 ^ 64

namespace MemmapEntry

/-- The address behind the last byte. -/
def stop (e : MemmapEntry) : Nat := e.base + e.length

end MemmapEntry

/-- The memory map of the bootloader; usable entries do not overlap. -/
structure MemoryMap where
  entries : List MemmapEntry
  disjoint : entries.Pairwise fun a b =>
    a.usable = true → b.usable = true → a.stop ≤ b.base ∨ b.stop ≤ a.base

/-- The usable entries. -/
def MemoryMap.usable (map : MemoryMap) : List MemmapEntry := map.entries.filter (·.usable)

/-- State of `pmm`. -/
structure Pmm where
  bitmap : Bitmap
  totalPages : Nat
  usedPages : Nat
  freePages : Nat

/-- The state before `init`: static storage is zero. -/
def boot : Pmm := ⟨⟨fun _ => 0⟩, 0, 0, 0⟩

/-- `++` on a 64-bit counter. -/
def increment (n : Nat) : Nat := (n + 1) % 2 ^ 64

/-- `--` on a 64-bit counter. -/
def decrement (n : Nat) : Nat := (n + (2 ^ 64 - 1)) % 2 ^ 64

/-- `align_up`. -/
def alignUp (value align : Nat) : Nat := (value + align - 1) % 2 ^ 64 / align * align

/-- The highest end of a usable entry. -/
def highestAddress (map : MemoryMap) : Nat :=
  map.usable.foldl (fun highest e => if e.stop > highest then e.stop else highest) 0

/-- `total_pages`. -/
def pageCount (map : MemoryMap) : Nat := highestAddress map / pageSize

/-- `bitmap_size`, in bytes. -/
def bitmapSize (totalPages : Nat) : Nat := (totalPages + 7) / 8

/-- `sizeof(bitmap_storage)`. -/
def bitmapStorage : Nat := 1024 * 1024

/-- The bitmap has room for the map. -/
def Fits (map : MemoryMap) : Prop := bitmapSize (pageCount map) ≤ bitmapStorage

instance (map : MemoryMap) : Decidable (Fits map) := inferInstanceAs (Decidable (_ ≤ _))

/-- The first pass: all pages are used. -/
def markAllUsed (s : Pmm) : Pmm where
  bitmap := ⟨fun i => if i < bitmapSize s.totalPages then 0xFF else s.bitmap.byte i⟩
  totalPages := s.totalPages
  usedPages := s.totalPages
  freePages := 0

/-- Pages below 1 MiB. -/
def lowPages : Nat := 256

/-- The second pass: low pages are reserved. -/
def reserveLow (s : Pmm) : Pmm :=
  { s with bitmap := (List.range lowPages).foldl Bitmap.set s.bitmap }

/-- The pages that the loop over a usable entry visits. -/
def entryPages (e : MemmapEntry) : List Nat :=
  let start := alignUp e.base pageSize
  (List.range ((e.stop - start) / pageSize)).map fun k => (start + pageSize * k) / pageSize

/-- The pages that the third pass visits. -/
def usablePages (map : MemoryMap) : List Nat := map.usable.flatMap entryPages

/-- The body of the third pass: a page becomes free. -/
def markFree (s : Pmm) (page : Nat) : Pmm :=
  { s with
    bitmap := s.bitmap.clear page
    usedPages := decrement s.usedPages
    freePages := increment s.freePages }

/-- The body of the last pass: a low page that became free is used again. -/
def lockPage (s : Pmm) (page : Nat) : Pmm :=
  if s.bitmap.test page = false then
    { s with
      bitmap := s.bitmap.set page
      usedPages := decrement s.usedPages
      freePages := decrement s.freePages }
  else s

/-- `init`. -/
def init (s : Pmm) (map : MemoryMap) : Pmm :=
  let s := { s with totalPages := pageCount map }
  if bitmapSize s.totalPages > bitmapStorage then s
  else
    let s := reserveLow (markAllUsed s)
    let s := (usablePages map).foldl markFree s
    (List.range lowPages).foldl lockPage s

/-- The first clear bit among `count` bits from `i` on. -/
def firstClear (b : Bitmap) : Nat → Nat → Option Nat
  | 0, _ => none
  | count + 1, i => if b.test i = false then some i else firstClear b count (i + 1)

/-- `alloc_page`; 0 when no page is free. -/
def allocPage (s : Pmm) : Nat × Pmm :=
  match firstClear s.bitmap s.totalPages 0 with
  | none => (0, s)
  | some i =>
    (i * pageSize, { s with
        bitmap := s.bitmap.set i
        usedPages := increment s.usedPages
        freePages := decrement s.freePages })

/-- `free_page`. -/
def freePage (s : Pmm) (addr : Nat) : Pmm :=
  if addr = 0 then s
  else if s.bitmap.test (addr / pageSize) = true then
    { s with
      bitmap := s.bitmap.clear (addr / pageSize)
      usedPages := decrement s.usedPages
      freePages := increment s.freePages }
  else s

/-- The pages that are free. -/
def freeSet (s : Pmm) : Finset Nat :=
  (range s.totalPages).filter fun page => s.bitmap.test page = false

variable {s : Pmm} {page : Nat}

/-- A page is free when it is in range and its bit is clear. -/
theorem mem_freeSet : page ∈ freeSet s ↔ page < s.totalPages ∧ s.bitmap.test page = false := by
  rw [freeSet, mem_filter, mem_range]

private theorem firstClear_some {b : Bitmap} {count i : Nat} (h : firstClear b count i = some page) :
    i ≤ page ∧ page < i + count ∧ b.test page = false := by
  induction count generalizing i with
  | zero => cases h
  | succ count ih =>
    rw [firstClear] at h
    split at h
    · next hclear =>
      cases h
      exact ⟨le_rfl, by omega, hclear⟩
    · obtain ⟨hle, hlt, hclear⟩ := ih h
      exact ⟨by omega, by omega, hclear⟩

private theorem firstClear_none {b : Bitmap} {count i : Nat} (h : firstClear b count i = none)
    (hle : i ≤ page) (hlt : page < i + count) : b.test page = true := by
  induction count generalizing i with
  | zero => omega
  | succ count ih =>
    rw [firstClear] at h
    split at h
    · cases h
    · next hset =>
      by_cases heq : page = i
      · rw [heq]
        exact Bool.not_eq_false _ ▸ hset
      · exact ih h (by omega) (by omega)

/-- What `alloc_page` does: nothing is free and nothing changes, or a free page becomes used. -/
theorem allocPage_cases (s : Pmm) :
    freeSet s = ∅ ∧ allocPage s = (0, s) ∨
    ∃ page ∈ freeSet s, allocPage s = (page * pageSize, { s with
        bitmap := s.bitmap.set page
        usedPages := increment s.usedPages
        freePages := decrement s.freePages }) := by
  cases h : firstClear s.bitmap s.totalPages 0 with
  | none =>
    refine .inl ⟨?_, by rw [allocPage, h]⟩
    apply eq_empty_of_forall_notMem
    intro page hmem
    obtain ⟨hlt, hclear⟩ := mem_freeSet.mp hmem
    rw [firstClear_none h (Nat.zero_le _) (by omega)] at hclear
    cases hclear
  | some page =>
    obtain ⟨-, hlt, hclear⟩ := firstClear_some h
    refine .inr ⟨page, mem_freeSet.mpr ⟨by omega, hclear⟩, by rw [allocPage, h]⟩

/-- Free pages after one is set. -/
theorem freeSet_set (s : Pmm) (page used free : Nat) :
    freeSet { s with bitmap := s.bitmap.set page, usedPages := used, freePages := free } =
      (freeSet s).erase page := by
  ext other
  rw [mem_erase, mem_freeSet, mem_freeSet, Bitmap.test_set]
  simp only [Bool.or_eq_false_iff, decide_eq_false_iff_not]
  tauto

/-- Free pages after one is cleared. -/
theorem freeSet_clear (s : Pmm) (used free : Nat) (h : page < s.totalPages) :
    freeSet { s with bitmap := s.bitmap.clear page, usedPages := used, freePages := free } =
      insert page (freeSet s) := by
  ext other
  rw [mem_insert, mem_freeSet, mem_freeSet, Bitmap.test_clear]
  by_cases heq : other = page
  · simp [heq, h]
  · simp [heq]

/-- Giving back a page that is not free makes it free. -/
theorem freeSet_freePage (hne : page ≠ 0) (hlt : page < s.totalPages) (hnot : page ∉ freeSet s) :
    freeSet (freePage s (page * pageSize)) = insert page (freeSet s) ∧
      (freePage s (page * pageSize)).totalPages = s.totalPages := by
  have hdiv : page * pageSize / pageSize = page := Nat.mul_div_cancel _ (by decide)
  have hzero : page * pageSize ≠ 0 := Nat.mul_ne_zero hne (by decide)
  have hset : s.bitmap.test page = true := by
    rw [mem_freeSet, not_and, Bool.not_eq_false] at hnot
    exact hnot hlt
  rw [freePage, if_neg hzero, hdiv, if_pos hset]
  exact ⟨freeSet_clear _ _ _ hlt, rfl⟩

/-- Giving back several pages, none free and none twice, makes them free. -/
theorem freeSet_foldl_freePage {addrs : List Nat} (hnodup : addrs.Nodup)
    (hpages : ∀ addr ∈ addrs, ∃ page, addr = page * pageSize ∧ page ≠ 0 ∧ page < s.totalPages ∧
      page ∉ freeSet s) : (∀ page, page ∈ freeSet (addrs.foldl freePage s) ↔
        page ∈ freeSet s ∨ page * pageSize ∈ addrs) ∧
      (addrs.foldl freePage s).totalPages = s.totalPages := by
  induction addrs generalizing s with
  | nil => simp
  | cons addr addrs ih =>
    obtain ⟨page, rfl, hne, hlt, hnot⟩ := hpages addr (by simp)
    obtain ⟨hfree, htotal⟩ := freeSet_freePage hne hlt hnot
    rw [List.nodup_cons] at hnodup
    have hrest := ih hnodup.2 (by
      intro other hother
      obtain ⟨q, rfl, hq, hqlt, hqnot⟩ := hpages other (by simp [hother])
      refine ⟨q, rfl, hq, by rwa [htotal], ?_⟩
      rw [hfree, mem_insert]
      rintro (rfl | hmem)
      · exact hnodup.1 hother
      · exact hqnot hmem)
    rw [List.foldl_cons]
    refine ⟨?_, hrest.2.trans htotal⟩
    intro other
    have hinj : other * pageSize = page * pageSize ↔ other = page :=
      Nat.mul_left_inj (by decide)
    rw [hrest.1 other, hfree, mem_insert, List.mem_cons, hinj, @or_comm (other = page),
      or_assoc]

end NasuaOS.Memory
