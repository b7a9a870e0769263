import NasuaOS.Memory.Pmm

/-!
# Which pages are handed out

When the bitmap has room for the memory map, `init` frees the whole pages of the usable entries and
locks those below 1 MiB again; from then on the free pages change only through `alloc_page` and
`free_page`. When it has no room, `init` returns with all bits clear, and the pages handed out have
nothing to do with the map.
-/

namespace NasuaOS.Memory

open Base List

variable {map : MemoryMap} {s : Pmm}

/-- The page lies in a usable entry of the map as a whole. -/
def WholeIn (map : MemoryMap) (page : Nat) : Prop :=
  ∃ e ∈ map.usable, e.base ≤ page * pageSize ∧ page * pageSize + pageSize ≤ e.stop

variable {e : MemmapEntry} {page : Nat}

private theorem stop_le_highestAddress (he : e ∈ map.usable) : e.stop ≤ highestAddress map := by
  apply le_foldl_of_mem (fun highest e => if e.stop > highest then e.stop else highest) map.usable
    0 e.stop _ e he
  · intro k
    split <;> omega
  · intro k a
    split <;> omega

/-- The bitmap describes at most 32 GiB. -/
theorem Fits.pageCount_le (h : Fits map) : pageCount map ≤ 2 ^ 23 := by
  unfold Fits bitmapSize bitmapStorage at h
  omega

private theorem Fits.stop_le (h : Fits map) (he : e ∈ map.usable) : e.stop < 2 ^ 36 := by
  have hle := stop_le_highestAddress he
  have hcount := h.pageCount_le
  unfold pageCount pageSize at hcount
  omega

private theorem Fits.mem_entryPages (h : Fits map) (he : e ∈ map.usable) :
    page ∈ entryPages e ↔ e.base ≤ page * pageSize ∧ page * pageSize + pageSize ≤ e.stop := by
  have hstop := h.stop_le he
  have hbase : e.base ≤ e.stop := Nat.le_add_right _ _
  unfold entryPages alignUp pageSize
  rw [Nat.mod_eq_of_lt (by omega)]
  simp only [mem_map, mem_range]
  constructor
  · rintro ⟨k, hk, rfl⟩
    omega
  · rintro ⟨hlow, hhigh⟩
    refine ⟨page - (e.base + 4096 - 1) / 4096, ?_, ?_⟩
    · omega
    · omega

private theorem nodup_entryPages (e : MemmapEntry) : (entryPages e).Nodup := by
  unfold entryPages pageSize
  apply Nodup.map_on _ nodup_range
  intro a _ b _ heq
  omega

/-- The pages visited are the whole pages of the usable entries. -/
theorem Fits.mem_usablePages (h : Fits map) : page ∈ usablePages map ↔ WholeIn map page := by
  rw [usablePages, mem_flatMap]
  constructor
  · rintro ⟨e, he, hp⟩
    exact ⟨e, he, (h.mem_entryPages he).mp hp⟩
  · rintro ⟨e, he, hp⟩
    exact ⟨e, he, (h.mem_entryPages he).mpr hp⟩

/-- No page is visited twice. -/
theorem Fits.nodup_usablePages (h : Fits map) : (usablePages map).Nodup := by
  rw [usablePages, nodup_flatMap]
  refine ⟨fun e _ => nodup_entryPages e, ?_⟩
  have hpair := map.disjoint.filter (fun e => e.usable)
  apply Pairwise.imp_of_mem _ hpair
  intro a c ha hc hdisjoint page hpa hpc
  have hwa := (h.mem_entryPages ha).mp hpa
  have hwc := (h.mem_entryPages hc).mp hpc
  have hor := hdisjoint (mem_filter.mp ha).2 (mem_filter.mp hc).2
  unfold pageSize at hwa hwc
  omega

/-- Pages of usable entries are in the range of the bitmap. -/
theorem Fits.lt_pageCount (h : Fits map) (hp : page ∈ usablePages map) : page < pageCount map := by
  obtain ⟨e, he, -, hhigh⟩ := h.mem_usablePages.mp hp
  have hle := stop_le_highestAddress he
  unfold pageCount
  rw [Nat.lt_iff_add_one_le, Nat.le_div_iff_mul_le (by decide)]
  unfold pageSize at hhigh ⊢
  omega

private theorem test_foldl_set (pages : List Nat) (b : Bitmap) (page : Nat) :
    (pages.foldl Bitmap.set b).test page = (decide (page ∈ pages) || b.test page) := by
  induction pages generalizing b with
  | nil => simp
  | cons first rest ih =>
    rw [foldl_cons, ih, Bitmap.test_set, ← Bool.or_assoc]
    congr 1
    rw [Bool.eq_iff_iff]
    simp only [Bool.or_eq_true, decide_eq_true_eq, mem_cons]
    exact Or.comm

private theorem test_foldl_markFree (pages : List Nat) (s : Pmm) (page : Nat) :
    (pages.foldl markFree s).bitmap.test page = (!decide (page ∈ pages) && s.bitmap.test page) := by
  induction pages generalizing s with
  | nil => simp
  | cons first rest ih =>
    rw [foldl_cons, ih, markFree, Bitmap.test_clear, ← Bool.and_assoc]
    congr 1
    rw [Bool.eq_iff_iff]
    simp only [Bool.and_eq_true, Bool.not_eq_true', decide_eq_false_iff_not, mem_cons, not_or]
    exact And.comm

private theorem counters_foldl_markFree (pages : List Nat) (s : Pmm) :
    ((pages.foldl markFree s).usedPages + pages.length) % 2 ^ 64 = s.usedPages % 2 ^ 64 ∧
      (pages.foldl markFree s).freePages % 2 ^ 64 = (s.freePages + pages.length) % 2 ^ 64 ∧
      (pages.foldl markFree s).totalPages = s.totalPages := by
  induction pages generalizing s with
  | nil => exact ⟨by simp, by simp, rfl⟩
  | cons first rest ih =>
    obtain ⟨hused, hfree, htotal⟩ := ih (markFree s first)
    have hu : (markFree s first).usedPages = (s.usedPages + (2 ^ 64 - 1)) % 2 ^ 64 := rfl
    have hf : (markFree s first).freePages = (s.freePages + 1) % 2 ^ 64 := rfl
    rw [foldl_cons, length_cons]
    exact ⟨by omega, by omega, htotal⟩

private theorem test_foldl_lockPage (pages : List Nat) (s : Pmm) (page : Nat) :
    (pages.foldl lockPage s).bitmap.test page = (decide (page ∈ pages) || s.bitmap.test page) := by
  induction pages generalizing s with
  | nil => simp
  | cons first rest ih =>
    have hstep : (lockPage s first).bitmap.test page =
        (decide (page = first) || s.bitmap.test page) := by
      unfold lockPage
      split
      · rw [Bitmap.test_set]
      · next hset =>
        by_cases heq : page = first
        · rw [heq, Bool.eq_true_of_not_eq_false hset, Bool.or_true]
        · rw [decide_eq_false heq, Bool.false_or]
    rw [foldl_cons, ih, hstep, ← Bool.or_assoc]
    congr 1
    rw [Bool.eq_iff_iff]
    simp only [Bool.or_eq_true, decide_eq_true_eq, mem_cons]
    exact Or.comm

private theorem counters_foldl_lockPage (pages : List Nat) (s : Pmm) (hnodup : pages.Nodup) :
    let locked := (pages.filter fun page => s.bitmap.test page = false).length
    ((pages.foldl lockPage s).usedPages + locked) % 2 ^ 64 = s.usedPages % 2 ^ 64 ∧
      ((pages.foldl lockPage s).freePages + locked) % 2 ^ 64 = s.freePages % 2 ^ 64 ∧
      (pages.foldl lockPage s).totalPages = s.totalPages := by
  induction pages generalizing s with
  | nil => exact ⟨by simp, by simp, rfl⟩
  | cons first rest ih =>
    obtain ⟨hfresh, hrest⟩ := nodup_cons.mp hnodup
    have hsame : (rest.filter fun page => (lockPage s first).bitmap.test page = false) =
        rest.filter fun page => s.bitmap.test page = false := by
      apply filter_congr
      intro page hmem
      have hne : page ≠ first := fun heq => hfresh (heq ▸ hmem)
      unfold lockPage
      split
      · rw [Bitmap.test_set, decide_eq_false hne, Bool.false_or]
      · rfl
    obtain ⟨hused, hfree, htotal⟩ := ih (lockPage s first) hrest
    rw [hsame] at hused hfree
    rw [foldl_cons]
    by_cases hclear : s.bitmap.test first = false
    · rw [filter_cons_of_pos (by simpa using hclear), length_cons]
      have hlock : lockPage s first = { s with
          bitmap := s.bitmap.set first
          usedPages := decrement s.usedPages
          freePages := decrement s.freePages } := if_pos hclear
      have hu : (lockPage s first).usedPages = (s.usedPages + (2 ^ 64 - 1)) % 2 ^ 64 := by
        rw [hlock]
        rfl
      have hf : (lockPage s first).freePages = (s.freePages + (2 ^ 64 - 1)) % 2 ^ 64 := by
        rw [hlock]
        rfl
      have ht : (lockPage s first).totalPages = s.totalPages := by rw [hlock]
      exact ⟨by omega, by omega, htotal.trans ht⟩
    · rw [filter_cons_of_neg (by simpa using hclear)]
      have hlock : lockPage s first = s := if_neg hclear
      rw [hlock] at hused hfree htotal ⊢
      exact ⟨hused, hfree, htotal⟩

/-- The state before the last pass. -/
def unlocked (map : MemoryMap) : Pmm :=
  (usablePages map).foldl markFree
    (reserveLow (markAllUsed { boot with totalPages := pageCount map }))

/-- `init` on a map that fits. -/
theorem Fits.init_eq (h : Fits map) :
    init boot map = (range lowPages).foldl lockPage (unlocked map) :=
  if_neg (Nat.not_lt.mpr h)

private theorem test_unlocked (hp : page < pageCount map ∨ page < lowPages) :
    (unlocked map).bitmap.test page = !decide (page ∈ usablePages map) := by
  have hset : (reserveLow (markAllUsed { boot with totalPages := pageCount map })).bitmap.test page
      = true := by
    rw [reserveLow, test_foldl_set]
    by_cases hlow : page < lowPages
    · rw [decide_eq_true (mem_range.mpr hlow), Bool.true_or]
    · have hbyte : page / 8 < bitmapSize (pageCount map) := by
        unfold bitmapSize
        omega
      rw [Bitmap.test_eq, markAllUsed]
      dsimp only
      rw [if_pos hbyte, show (0xFF : UInt8).toNat = 2 ^ 8 - 1 by rfl, Nat.testBit_two_pow_sub_one,
        decide_eq_true (Nat.mod_lt _ (by decide)), Bool.or_true]
  rw [unlocked, test_foldl_markFree, hset, Bool.and_true]

/-- Low pages that the last pass locks. -/
def lockedPages (map : MemoryMap) : List Nat :=
  (range lowPages).filter fun page => page ∈ usablePages map

private theorem lockedPages_eq (map : MemoryMap) :
    ((range lowPages).filter fun page => (unlocked map).bitmap.test page = false) =
      lockedPages map := by
  apply filter_congr
  intro page hmem
  rw [test_unlocked (.inr (mem_range.mp hmem))]
  simp

/-- The counters after `init`. -/
theorem Fits.counters_init (h : Fits map) :
    ((init boot map).usedPages + (usablePages map).length + (lockedPages map).length) % 2 ^ 64 =
        pageCount map % 2 ^ 64 ∧ ((init boot map).freePages + (lockedPages map).length) % 2 ^ 64 =
        (usablePages map).length % 2 ^ 64 ∧ (init boot map).totalPages = pageCount map := by
  obtain ⟨hused, hfree, htotal⟩ :=
    counters_foldl_lockPage (range lowPages) (unlocked map) nodup_range
  obtain ⟨hused', hfree', htotal'⟩ := counters_foldl_markFree (usablePages map)
    (reserveLow (markAllUsed { boot with totalPages := pageCount map }))
  rw [lockedPages_eq, ← h.init_eq] at hused hfree
  rw [← h.init_eq] at htotal
  rw [← unlocked] at hused' hfree' htotal'
  have hu : (reserveLow (markAllUsed { boot with totalPages := pageCount map })).usedPages =
      pageCount map := rfl
  have hf : (reserveLow (markAllUsed { boot with totalPages := pageCount map })).freePages = 0 :=
    rfl
  exact ⟨by omega, by omega, htotal.trans htotal'⟩

/-- After `init` the free pages are the usable ones from 1 MiB on. -/
theorem Fits.mem_freeSet_init (h : Fits map) :
    page ∈ freeSet (init boot map) ↔ WholeIn map page ∧ lowPages ≤ page := by
  rw [mem_freeSet, h.counters_init.2.2, h.init_eq, test_foldl_lockPage, Bool.or_eq_false_iff,
    decide_eq_false_iff_not, mem_range, ← h.mem_usablePages]
  constructor
  · rintro ⟨hlt, hlow, hclear⟩
    rw [test_unlocked (.inl hlt)] at hclear
    exact ⟨by simpa using hclear, by omega⟩
  · rintro ⟨hmem, hlow⟩
    have hlt := h.lt_pageCount hmem
    rw [test_unlocked (.inl hlt)]
    exact ⟨hlt, by omega, by simpa using hmem⟩

end NasuaOS.Memory
