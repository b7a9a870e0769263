import NasuaOS.Memory.Frames

/-!
# Clients of the physical memory manager

Runs of `alloc_page` and `free_page` after `init`. A client gives back only what it holds; the pages
it holds and the free pages never overlap, and both come from the usable memory. The counters are
right exactly when no usable page lies below 1 MiB, since the last pass of `init` takes a page that
it locks off the used pages too.
-/

namespace NasuaOS.Memory

open Base Finset

variable {map : MemoryMap}

/-- The manager, and the addresses handed out and not given back. -/
structure Client where
  pmm : Pmm
  outstanding : List Nat

namespace Client

/-- Ask for a page. -/
def alloc (c : Client) : Client where
  pmm := (allocPage c.pmm).2
  outstanding :=
    if (allocPage c.pmm).1 = 0 then c.outstanding else (allocPage c.pmm).1 :: c.outstanding

/-- Give a page back. -/
def free (c : Client) (addr : Nat) : Client where
  pmm := freePage c.pmm addr
  outstanding := c.outstanding.erase addr

end Client

/-- States that a client reaches after `init`. -/
inductive Reachable (map : MemoryMap) : Client → Prop
  | start : Reachable map ⟨init boot map, []⟩
  | alloc {c : Client} (hc : Reachable map c) : Reachable map c.alloc
  | free {c : Client} {addr : Nat} (hc : Reachable map c) (ha : addr ∈ c.outstanding) :
      Reachable map (c.free addr)

/-- The free pages and the pages held are usable pages from 1 MiB on, and no page is both. -/
structure Separate (map : MemoryMap) (c : Client) : Prop where
  free : ∀ page ∈ freeSet c.pmm, WholeIn map page ∧ lowPages ≤ page
  held : ∀ addr ∈ c.outstanding, ∃ page, addr = page * pageSize ∧ lowPages ≤ page ∧
    page < c.pmm.totalPages ∧ c.pmm.bitmap.test page = true ∧ WholeIn map page
  nodup : c.outstanding.Nodup

variable {c : Client} {addr : Nat}

private theorem Separate.alloc_ne_zero (h : Separate map c) {page : Nat} (hp : page ∈ freeSet c.pmm) :
    page * pageSize ≠ 0 := by
  have hlow := (h.free page hp).2
  unfold lowPages at hlow
  unfold pageSize
  omega

private theorem Separate.alloc {c : Client} (h : Separate map c) : Separate map c.alloc := by
  rcases allocPage_cases c.pmm with ⟨-, heq⟩ | ⟨page, hp, heq⟩
  · rw [Client.alloc, heq]
    exact h
  · obtain ⟨hlt, hclear⟩ := mem_freeSet.mp hp
    obtain ⟨hwhole, hlow⟩ := h.free page hp
    rw [Client.alloc, heq]
    rw [if_neg (h.alloc_ne_zero hp)]
    constructor
    case free =>
      intro other hother
      rw [freeSet_set] at hother
      exact h.free other (mem_of_mem_erase hother)
    case held =>
      intro addr haddr
      rcases List.mem_cons.mp haddr with rfl | haddr
      · exact ⟨page, rfl, hlow, hlt, by rw [Bitmap.test_set]; simp, hwhole⟩
      · obtain ⟨other, rfl, holow, holt, hset, howhole⟩ := h.held addr haddr
        exact ⟨other, rfl, holow, holt, by rw [Bitmap.test_set, hset, Bool.or_true], howhole⟩
    case nodup =>
      rw [List.nodup_cons]
      refine ⟨?_, h.nodup⟩
      intro hmem
      obtain ⟨other, heq, -, -, hset, -⟩ := h.held _ hmem
      have hsame : other = page := Nat.eq_of_mul_eq_mul_right (by decide) heq.symm
      rw [hsame, hclear] at hset
      cases hset

private theorem Separate.freePage_eq (h : Separate map c) (ha : addr ∈ c.outstanding) :
    ∃ page, addr = page * pageSize ∧ page < c.pmm.totalPages ∧
      lowPages ≤ page ∧ WholeIn map page ∧ page ∉ freeSet c.pmm ∧
      freePage c.pmm addr = { c.pmm with
        bitmap := c.pmm.bitmap.clear page
        usedPages := decrement c.pmm.usedPages
        freePages := increment c.pmm.freePages } := by
  obtain ⟨page, rfl, hlow, hlt, hset, hwhole⟩ := h.held addr ha
  have hdiv : page * pageSize / pageSize = page := Nat.mul_div_cancel _ (by decide)
  have hne : page * pageSize ≠ 0 := by
    unfold lowPages at hlow
    unfold pageSize
    omega
  refine ⟨page, rfl, hlt, hlow, hwhole, ?_, ?_⟩
  · intro hmem
    rw [(mem_freeSet.mp hmem).2] at hset
    cases hset
  · rw [freePage, if_neg hne, hdiv, if_pos hset]

private theorem Separate.giveBack (h : Separate map c) (ha : addr ∈ c.outstanding) :
    Separate map (c.free addr) := by
  obtain ⟨page, rfl, hlt, hlow, hwhole, -, heq⟩ := h.freePage_eq ha
  rw [Client.free, heq]
  constructor
  case free =>
    intro other hother
    rw [freeSet_clear _ _ _ hlt] at hother
    rcases mem_insert.mp hother with rfl | hother
    · exact ⟨hwhole, hlow⟩
    · exact h.free other hother
  case held =>
    intro addr haddr
    rw [h.nodup.mem_erase_iff] at haddr
    obtain ⟨other, rfl, holow, holt, hset, howhole⟩ := h.held addr haddr.2
    have hne : other ≠ page := fun heq => haddr.1 (by rw [heq])
    exact ⟨other, rfl, holow, holt, by simp [Bitmap.test_clear, hne, hset], howhole⟩
  case nodup => exact h.nodup.erase _

private theorem Reachable.separate (h : Fits map) (hc : Reachable map c) : Separate map c := by
  induction hc with
  | start =>
    refine ⟨?_, by simp, List.nodup_nil⟩
    intro page hp
    exact h.mem_freeSet_init.mp hp
  | alloc _ ih => exact ih.alloc
  | free _ ha ih => exact ih.giveBack ha

/-- The page at an address is aligned, lies at 1 MiB or above, and in a usable entry. -/
def Usable (map : MemoryMap) (addr : Nat) : Prop :=
  pageSize ∣ addr ∧ 2 ^ 20 ≤ addr ∧ ∃ e ∈ map.usable, e.base ≤ addr ∧ addr + pageSize ≤ e.stop

private theorem alloc_twice_of_not_fits (h : ¬Fits map) :
    Reachable map (Client.alloc ⟨init boot map, []⟩) ∧
      (allocPage (Client.alloc ⟨init boot map, []⟩).pmm).1 = pageSize := by
  refine ⟨.alloc .start, ?_⟩
  have hinit : init boot map = { boot with totalPages := pageCount map } :=
    if_pos (Nat.not_le.mp h)
  have hcount : 2 ≤ pageCount map := by
    unfold Fits bitmapSize bitmapStorage at h
    omega
  obtain ⟨count, hcount⟩ := Nat.exists_eq_add_of_le' hcount
  have hzero (i : Nat) : boot.bitmap.test i = false := by
    rw [Bitmap.test_eq]
    exact Nat.zero_testBit _
  have hone : (boot.bitmap.set 0).test 1 = false := by
    rw [Bitmap.test_set, hzero]
    rfl
  have hset : (boot.bitmap.set 0).test 0 = true := by
    rw [Bitmap.test_set]
    rfl
  have hfirst : firstClear boot.bitmap (count + 2) 0 = some 0 := if_pos (hzero 0)
  have hsecond : firstClear (boot.bitmap.set 0) (count + 2) 0 = some 1 := by
    rw [firstClear, if_neg (by rw [hset]; decide)]
    exact if_pos hone
  have hpage : (Client.alloc ⟨init boot map, []⟩).pmm = { boot with
      bitmap := boot.bitmap.set 0
      totalPages := count + 2
      usedPages := increment 0
      freePages := decrement 0 } := by
    rw [Client.alloc, hinit, hcount, allocPage]
    rw [hfirst]
    rfl
  rw [hpage, allocPage]
  rw [hsecond]
  rfl

/-- Every page handed out in every run is usable memory, if and only if the bitmap has room for the
memory map. -/
theorem hands_out_usable_iff_fits (map : MemoryMap) :
    (∀ c, Reachable map c → (allocPage c.pmm).1 ≠ 0 → Usable map (allocPage c.pmm).1) ↔
      Fits map := by
  constructor
  · intro h
    by_contra hfits
    obtain ⟨hreach, heq⟩ := alloc_twice_of_not_fits hfits
    obtain ⟨-, hlow, -⟩ := h _ hreach (by rw [heq]; decide)
    rw [heq] at hlow
    exact absurd hlow (by decide)
  · intro hfits c hc hne
    have h := hc.separate hfits
    rcases allocPage_cases c.pmm with ⟨-, heq⟩ | ⟨page, hp, heq⟩
    · rw [heq] at hne
      exact absurd rfl hne
    · obtain ⟨⟨e, he, hbase, hstop⟩, hlow⟩ := h.free page hp
      rw [heq]
      refine ⟨Nat.dvd_mul_left _ _, ?_, e, he, hbase, hstop⟩
      unfold lowPages at hlow
      unfold pageSize
      omega

/-- One usable entry of 64 GiB. -/
def largeMap : MemoryMap := ⟨[⟨0, 2 ^ 36, true, by decide⟩], List.pairwise_singleton _ _⟩

/-- With 64 GiB of memory, page 1 is handed out. -/
theorem largeMap_hands_out_low_page :
    ∃ c, Reachable largeMap c ∧ (allocPage c.pmm).1 ≠ 0 ∧
      ¬Usable largeMap (allocPage c.pmm).1 := by
  have hfits : ¬Fits largeMap := by decide
  obtain ⟨hreach, heq⟩ := alloc_twice_of_not_fits hfits
  refine ⟨_, hreach, by rw [heq]; decide, ?_⟩
  rw [heq]
  intro h
  exact absurd h.2.1 (by decide)

/-- On a map that fits, in every run: no page is held twice, `alloc_page` returns 0 exactly when no
page is free and otherwise takes one free page, and giving a page back makes it free and no other. -/
theorem pages_exclusive (h : Fits map) {c : Client} (hc : Reachable map c) :
    c.outstanding.Nodup ∧
      ((allocPage c.pmm).1 = 0 ↔ freeSet c.pmm = ∅) ∧
      ((allocPage c.pmm).1 ≠ 0 → (allocPage c.pmm).1 / pageSize ∈ freeSet c.pmm ∧
        freeSet (allocPage c.pmm).2 = (freeSet c.pmm).erase ((allocPage c.pmm).1 / pageSize)) ∧
      ∀ addr ∈ c.outstanding, addr / pageSize ∉ freeSet c.pmm ∧
        freeSet (freePage c.pmm addr) = insert (addr / pageSize) (freeSet c.pmm) := by
  have hsep := hc.separate h
  refine ⟨hsep.nodup, ?_, ?_, ?_⟩
  · rcases allocPage_cases c.pmm with ⟨hnone, heq⟩ | ⟨page, hp, heq⟩
    · rw [heq]
      exact iff_of_true rfl hnone
    · rw [heq]
      exact iff_of_false (hsep.alloc_ne_zero hp) (ne_empty_of_mem hp)
  · intro hne
    rcases allocPage_cases c.pmm with ⟨-, heq⟩ | ⟨page, hp, heq⟩
    · rw [heq] at hne
      exact absurd rfl hne
    · have hdiv : page * pageSize / pageSize = page := Nat.mul_div_cancel _ (by decide)
      rw [heq]
      rw [hdiv]
      exact ⟨hp, freeSet_set _ _ _ _⟩
  · intro addr ha
    obtain ⟨page, rfl, hlt, -, -, hfree, heq⟩ := hsep.freePage_eq ha
    have hdiv : page * pageSize / pageSize = page := Nat.mul_div_cancel _ (by decide)
    rw [heq, hdiv]
    exact ⟨hfree, freeSet_clear _ _ _ hlt⟩

/-- Three usable pages from 1 MiB on. -/
def smallMap : MemoryMap := ⟨[⟨2 ^ 20, 3 * 4096, true, by decide⟩], List.pairwise_singleton _ _⟩

/-- After one call on three pages, the page handed out is held and can be given back. -/
theorem pages_exclusive_smallMap :
    Fits smallMap ∧ Reachable smallMap (Client.alloc ⟨init boot smallMap, []⟩) ∧
      (Client.alloc ⟨init boot smallMap, []⟩).outstanding = [2 ^ 20] ∧
      256 ∉ freeSet (Client.alloc ⟨init boot smallMap, []⟩).pmm := by
  have hfits : Fits smallMap := by decide
  have hreach : Reachable smallMap (Client.alloc ⟨init boot smallMap, []⟩) := .alloc .start
  have hheld : (Client.alloc ⟨init boot smallMap, []⟩).outstanding = [2 ^ 20] := by decide +kernel
  obtain ⟨-, -, -, hback⟩ := pages_exclusive hfits hreach
  exact ⟨hfits, hreach, hheld, (hback (2 ^ 20) (by rw [hheld]; exact List.mem_singleton_self _)).1⟩

/-- `free_pages` counts the clear bits below `total_pages`, and the counters add up. -/
def Accounted (s : Pmm) : Prop :=
  s.freePages = (freeSet s).card ∧ s.usedPages + s.freePages = s.totalPages

/-- States reached after `init` by any calls of `alloc_page`, and of `free_page` with addresses of
the memory that the manager describes. -/
inductive Visited (map : MemoryMap) : Pmm → Prop
  | start : Visited map (init boot map)
  | alloc {s : Pmm} (hs : Visited map s) : Visited map (allocPage s).2
  | free {s : Pmm} {addr : Nat} (hs : Visited map s) (ha : addr / pageSize < s.totalPages) :
      Visited map (freePage s addr)

private theorem Accounted.alloc {s : Pmm} (h : Accounted s) (ht : s.totalPages ≤ 2 ^ 23) :
    Accounted (allocPage s).2 := by
  obtain ⟨hfree, hsum⟩ := h
  rcases allocPage_cases s with ⟨-, heq⟩ | ⟨page, hp, heq⟩
  · rw [heq]
    exact ⟨hfree, hsum⟩
  · have hcard := card_erase_of_mem hp
    have hpos := card_pos.mpr ⟨page, hp⟩
    rw [heq]
    refine ⟨?_, ?_⟩
    · rw [freeSet_set, hcard]
      dsimp only
      unfold decrement
      omega
    · dsimp only
      unfold increment decrement
      omega

private theorem Accounted.free {s : Pmm} (h : Accounted s) (ht : s.totalPages ≤ 2 ^ 23)
    (ha : addr / pageSize < s.totalPages) : Accounted (freePage s addr) := by
  obtain ⟨hfree, hsum⟩ := h
  unfold freePage
  split
  · exact ⟨hfree, hsum⟩
  split
  · next hset =>
    have hnot : addr / pageSize ∉ freeSet s := by
      intro hmem
      rw [(mem_freeSet.mp hmem).2] at hset
      cases hset
    -- A page that is not free leaves room in the count of free pages.
    have hlt : (freeSet s).card < s.totalPages := by
      have hsub : freeSet s ⊆ (range s.totalPages).erase (addr / pageSize) := by
        intro page hmem
        rw [mem_erase, mem_range]
        exact ⟨fun heq => hnot (heq ▸ hmem), (mem_freeSet.mp hmem).1⟩
      have hcard := card_le_card hsub
      rw [card_erase_of_mem (mem_range.mpr ha), card_range] at hcard
      have hpos : 0 < s.totalPages := Nat.zero_lt_of_lt ha
      omega
    refine ⟨?_, ?_⟩
    · rw [freeSet_clear _ _ _ ha, card_insert_of_notMem hnot]
      dsimp only
      unfold increment
      omega
    · dsimp only
      unfold increment decrement
      omega
  · exact ⟨hfree, hsum⟩

private theorem Visited.totalPages (h : Fits map) {s : Pmm} (hs : Visited map s) :
    s.totalPages = pageCount map := by
  induction hs with
  | start => exact h.counters_init.2.2
  | @alloc s _ ih =>
    rcases allocPage_cases s with ⟨-, heq⟩ | ⟨page, -, heq⟩
    · rw [heq]
      exact ih
    · rw [heq]
      exact ih
  | free _ _ ih =>
    unfold freePage
    split
    · exact ih
    split
    · exact ih
    · exact ih

private theorem Fits.length_usablePages_le (h : Fits map) :
    (usablePages map).length ≤ pageCount map := by
  have hsub : (usablePages map).toFinset ⊆ range (pageCount map) := by
    intro page hmem
    exact mem_range.mpr (h.lt_pageCount (List.mem_toFinset.mp hmem))
  have hcard := card_le_card hsub
  rwa [List.toFinset_card_of_nodup h.nodup_usablePages, card_range] at hcard

private theorem Fits.card_freeSet_init (h : Fits map) :
    (freeSet (init boot map)).card + (lockedPages map).length = (usablePages map).length := by
  have hlocked : (lockedPages map).toFinset =
      (usablePages map).toFinset.filter fun page => ¬lowPages ≤ page := by
    ext page
    simp [lockedPages, and_comm]
  have hfree : freeSet (init boot map) =
      (usablePages map).toFinset.filter fun page => lowPages ≤ page := by
    ext page
    rw [h.mem_freeSet_init, ← h.mem_usablePages]
    simp
  have hnodup : (lockedPages map).Nodup := List.nodup_range.filter _
  rw [← List.toFinset_card_of_nodup hnodup, hlocked, hfree,
    ← List.toFinset_card_of_nodup h.nodup_usablePages]
  exact card_filter_add_card_filter_not _

private theorem Fits.counters_lt (h : Fits map) :
    (init boot map).usedPages < 2 ^ 64 ∧ (init boot map).freePages < 2 ^ 64 := by
  have hcount := h.pageCount_le
  have hmod (n : Nat) : n % 2 ^ 64 < 2 ^ 64 := Nat.mod_lt _ (by decide)
  rw [h.init_eq]
  apply foldl_invariant (P := fun s : Pmm => s.usedPages < 2 ^ 64 ∧ s.freePages < 2 ^ 64)
  · apply foldl_invariant (P := fun s : Pmm => s.usedPages < 2 ^ 64 ∧ s.freePages < 2 ^ 64)
    · change pageCount map < 2 ^ 64 ∧ 0 < 2 ^ 64
      omega
    · intro s page _ _
      exact ⟨hmod _, hmod _⟩
  · intro s page _ hs
    unfold lockPage
    split
    · exact ⟨hmod _, hmod _⟩
    · exact hs

private theorem Fits.accounted_init_iff (h : Fits map) :
    Accounted (init boot map) ↔ lockedPages map = [] := by
  obtain ⟨hused, hfree, htotal⟩ := h.counters_init
  have hcount := h.pageCount_le
  have hlength := h.length_usablePages_le
  have hcard := h.card_freeSet_init
  have hlocked : (lockedPages map).length ≤ 256 := by
    have hle := List.length_filter_le (fun page => decide (page ∈ usablePages map))
      (List.range lowPages)
    rwa [List.length_range] at hle
  obtain ⟨hu, hf⟩ := h.counters_lt
  rw [Accounted, htotal, ← List.length_eq_zero_iff]
  constructor
  · rintro ⟨hclear, hsum⟩
    omega
  · intro hnone
    omega

/-- On a map that fits, the counters are right in every state of every run, if and only if no whole
page of usable memory lies below 1 MiB. -/
theorem accounted_iff_no_low_page (h : Fits map) :
    (∀ s, Visited map s → Accounted s) ↔ ∀ page, WholeIn map page → lowPages ≤ page := by
  have hlocked : lockedPages map = [] ↔ ∀ page, WholeIn map page → lowPages ≤ page := by
    rw [lockedPages, List.filter_eq_nil_iff]
    constructor
    · intro hnone page hwhole
      by_contra hlow
      exact hnone page (List.mem_range.mpr (Nat.not_le.mp hlow))
        (decide_eq_true (h.mem_usablePages.mpr hwhole))
    · intro hlow page hmem hpage
      have hle := hlow page (h.mem_usablePages.mp (of_decide_eq_true hpage))
      exact absurd (List.mem_range.mp hmem) (Nat.not_lt.mpr hle)
  rw [← hlocked, ← h.accounted_init_iff]
  constructor
  · intro hall
    exact hall _ .start
  · intro hinit s hs
    induction hs with
    | start => exact hinit
    | alloc hs ih => exact ih.alloc (by rw [hs.totalPages h]; exact h.pageCount_le)
    | free hs ha ih => exact ih.free (by rw [hs.totalPages h]; exact h.pageCount_le) ha

/-- The counters are right throughout on three usable pages from 1 MiB on. -/
theorem accounted_smallMap :
    Fits smallMap ∧ ∀ s, Visited smallMap s → Accounted s := by
  have hfits : Fits smallMap := by decide
  refine ⟨hfits, (accounted_iff_no_low_page hfits).mpr ?_⟩
  rintro page ⟨e, he, hbase, -⟩
  obtain rfl : e = ⟨2 ^ 20, 3 * 4096, true, by decide⟩ := List.mem_singleton.mp he
  unfold pageSize at hbase
  unfold lowPages
  dsimp only at hbase
  omega

/-- One usable page at 4 KiB and one at 1 MiB. -/
def lowMap : MemoryMap :=
  ⟨[⟨4096, 4096, true, by decide⟩, ⟨2 ^ 20, 4096, true, by decide⟩], by decide⟩

/-- With a usable page below 1 MiB the counters do not add up after `init`. -/
theorem lowMap_not_accounted :
    Fits lowMap ∧ Visited lowMap (init boot lowMap) ∧ ¬Accounted (init boot lowMap) := by
  have hfits : Fits lowMap := by decide
  refine ⟨hfits, .start, ?_⟩
  rintro ⟨-, hsum⟩
  exact absurd hsum (by decide +kernel)

end NasuaOS.Memory
