import NasuaOS.Memory.HeapRuns

/-!
# Single calls of kmalloc

`src/resources/drivers/memory/functions/heap.cpp:28–65`. A call may be made with any 64-bit size and
in any state in which the kernel's tables are in order. The sum of size and header and its rounding
to pages are computed modulo 2^64, so a block can be shorter than what was asked for; a call that
fails keeps the pages that it has mapped so far and the frame that it could not map.
-/

namespace NasuaOS.Memory

open Base

/-- States of the heap: tables are in order, no large page is in the way, and the next page is a
slot. -/
structure Heap.Ready (s : Heap) : Prop where
  arena : Arena s.machine 0
  current : ∃ count < slotCount, s.current = slotAddr count

variable {m : Machine} {s s' : Heap}

/-- A manager whose pages from the third on are free. -/
def freshPages (count : Nat) : Pmm := ⟨⟨fun i => if i = 0 then 3 else 0⟩, count + 2, 2, count⟩

/-- An empty heap with some free pages and a memory of zeros. -/
def freshHeap (count : Nat) : Heap := ⟨⟨freshPages count, fun _ _ => 0, 0x1000⟩, heapStart⟩

private theorem freshHeap_ready {count : Nat} (h : count < 2 ^ 16) : (freshHeap count).Ready := by
  refine ⟨⟨?_, ?_, ?_, nofun, nofun⟩, 0, by decide, rfl⟩
  · apply tablesOwned_zeros (fun _ _ => rfl)
    · intro hmem
      have hused : (freshPages 0).bitmap.test (0x1000 / pageSize) ≠ false := by decide
      exact hused (mem_freeSet.mp hmem).2
    · show (count + 2) * pageSize ≤ 2 ^ 64
      unfold pageSize
      omega
  · show count + 2 ≤ 2 ^ 23
    omega
  · intro k hk
    exact largeFree_zeros (fun _ _ => rfl) _

variable {pages size : Nat}

private theorem mapPages_current {ok : Bool} (hs : s.current < 2 ^ 64)
    (h : mapPages pages s = (ok, s')) : ∃ j ≤ pages,
      s'.current = (s.current + j * pageSize) % 2 ^ 64 ∧ (ok = true → j = pages) := by
  induction pages generalizing s with
  | zero =>
    cases h
    exact ⟨0, le_rfl, by rw [Nat.zero_mul, Nat.add_zero, Nat.mod_eq_of_lt hs], fun _ => rfl⟩
  | succ pages ih =>
    have hstop : ∃ j ≤ pages + 1, s.current = (s.current + j * pageSize) % 2 ^ 64 ∧
        (false = true → j = pages + 1) :=
      ⟨0, Nat.zero_le _, by rw [Nat.zero_mul, Nat.add_zero, Nat.mod_eq_of_lt hs], nofun⟩
    rw [mapPages] at h
    dsimp only at h
    split at h
    · cases h
      exact hstop
    · split at h
      · cases h
        exact hstop
      · obtain ⟨j, hj, hcurrent, hall⟩ := ih (Nat.mod_lt _ (by decide)) h
        refine ⟨j + 1, Nat.succ_le_succ hj, ?_, fun hok => by rw [hall hok]⟩
        rw [hcurrent]
        rw [Nat.mod_add_mod, Nat.add_mul, Nat.one_mul, Nat.add_assoc, Nat.add_comm pageSize]

private theorem Arena.mapPages_mapped {count : Nat} (h : Arena m 0)
    (hroom : count + pages < slotCount) (hok : mapPages pages ⟨m, slotAddr count⟩ = (true, s')) :
    Arena s'.machine 0 ∧
      (∀ i < pages, ∃ f, slot s'.machine (count + i) = some f ∧ Backing s'.machine f) ∧
      ∀ j < count, ∀ f, slot m j = some f → Backing m f →
        slot s'.machine j = some f ∧ Backing s'.machine f := by
  induction pages generalizing m count with
  | zero =>
    cases hok
    exact ⟨h, nofun, fun _ _ _ hf hb => ⟨hf, hb⟩⟩
  | succ pages ih =>
    rw [mapPages] at hok
    rcases takePage_cases m with ⟨-, heq⟩ | ⟨page, pmm, hpage, hfree, htotal, heq⟩
    · rw [heq] at hok
      cases hok
    · rw [heq] at hok
      dsimp only at hok
      split at hok
      · cases hok
      next hne =>
      have hzero := left_ne_zero_of_mul hne
      obtain ⟨ok, m₁, hmap, harena, hback, hslots, hkept⟩ :=
        h.mapPage_turn (k := count) (by omega) hpage hfree htotal hzero
      rw [hmap] at hok
      cases ok with
      | false => cases hok
      | true =>
        rw [slotAddr_succ (by omega)] at hok
        obtain ⟨harena', hmapped, hkept'⟩ := ih harena (by omega) hok
        refine ⟨harena', ?_, ?_⟩
        · intro i hi
          cases i with
          | zero =>
            have hslot := (hslots count (by omega)).trans (if_pos ⟨rfl, rfl⟩)
            exact ⟨_, hkept' count (Nat.lt_succ_self _) _ hslot hback⟩
          | succ i =>
            have hi' := hmapped i (by omega)
            rwa [Nat.add_right_comm, Nat.add_assoc] at hi'
        · intro j hj f hf hb
          refine hkept' j (by omega) f ?_ (hkept f hb).1
          rw [hslots j (by omega), if_neg (by omega), hf]

/-- Header and block lie in mapped pages before the next page. -/
def Covers (start size : Nat) (s : Heap) : Prop :=
  ∀ i < headerSize + size, start + i < s.current ∧ (mapped (start + i) s.machine).isSome = true

private theorem le_pagesFor_iff (hsize : size < 2 ^ 64) :
    headerSize + size ≤ pagesFor size * pageSize ↔ size + headerSize + (pageSize - 1) < 2 ^ 64 := by
  unfold pagesFor headerSize pageSize
  omega

private theorem slotAddr_add (count i : Nat) :
    slotAddr count + i = slotAddr (count + i / pageSize) + i % pageSize := by
  unfold slotAddr pageSize
  omega

private theorem mapped_slotAddr_add (m : Machine) {k i : Nat} (hi : i < pageSize) :
    mapped (slotAddr k + i) m = slot m k := by
  rw [slot, mapped, mapped, resolve_congr (pageOf_slotAddr_add hi)]

private theorem pagesFor_mul_lt (size : Nat) : pagesFor size * pageSize < 2 ^ 64 := by
  unfold pagesFor pageSize
  omega

private theorem kmalloc_eq_some {ptr : Nat} (h : kmalloc size s = (ptr, s')) (hptr : ptr ≠ 0) :
    ptr = (s.current + headerSize) % 2 ^ 64 ∧
      ∃ t, mapPages (pagesFor size) s = (true, t) ∧ s' = { t with
        machine := (t.machine.store s.current size).store (s.current + 8) (pagesFor size) } := by
  unfold kmalloc at h
  split at h
  · cases h
    exact absurd rfl hptr
  · split at h
    · cases h
      exact absurd rfl hptr
    · next t ht =>
      cases h
      exact ⟨rfl, t, ht, rfl⟩

private theorem Heap.Ready.current_lt (h : s.Ready) : s.current < 2 ^ 64 := by
  obtain ⟨count, hcount, heq⟩ := h.current
  rw [heq]
  unfold slotAddr heapStart pageSize
  unfold slotCount at hcount
  omega

/-- A block that `kmalloc` returns is covered if and only if neither the size with its header, rounded
to pages, nor the end of the block is beyond the 64-bit range. -/
theorem kmalloc_covers_iff (h : s.Ready) {size ptr : Nat} (hsize : size < 2 ^ 64)
    (hcall : kmalloc size s = (ptr, s')) (hptr : ptr ≠ 0) :
    (ptr = s.current + headerSize ∧ Covers s.current size s') ↔
      size + headerSize + (pageSize - 1) < 2 ^ 64 ∧
        s.current + pagesFor size * pageSize < 2 ^ 64 := by
  have hlt := h.current_lt
  have hpages := pagesFor_mul_lt size
  obtain ⟨hstart, t, ht, rfl⟩ := kmalloc_eq_some hcall hptr
  obtain ⟨j, -, hend, hall⟩ := mapPages_current hlt ht
  rw [hall rfl] at hend
  rw [← le_pagesFor_iff hsize]
  constructor
  · rintro ⟨-, hcovers⟩
    have hfirst := (hcovers 0 (by unfold headerSize; omega)).1
    have hlast := (hcovers (headerSize + size - 1) (by unfold headerSize; omega)).1
    rw [hend] at hfirst hlast
    have hnowrap : s.current + pagesFor size * pageSize < 2 ^ 64 := by omega
    rw [Nat.mod_eq_of_lt hnowrap] at hlast
    exact ⟨by unfold headerSize at hlast ⊢; omega, hnowrap⟩
  · rintro ⟨hfits, hnowrap⟩
    rw [Nat.mod_eq_of_lt hnowrap] at hend
    obtain ⟨count, -, hcurrent⟩ := h.current
    have hroom : count + pagesFor size < slotCount := by
      rw [hcurrent] at hnowrap
      unfold slotAddr heapStart at hnowrap
      unfold slotCount
      unfold pageSize at hnowrap
      omega
    have hpos : 0 < pagesFor size := by
      apply Nat.pos_of_ne_zero
      intro hzero
      rw [hzero] at hfits
      unfold headerSize at hfits
      omega
    obtain ⟨machine, current⟩ := s
    subst hcurrent
    obtain ⟨harena, hmapped, -⟩ := h.arena.mapPages_mapped hroom ht
    obtain ⟨f, hf, hback⟩ := hmapped 0 hpos
    rw [Nat.add_zero] at hf
    refine ⟨?_, fun i hi => ⟨?_, ?_⟩⟩
    · rw [hstart, Nat.mod_eq_of_lt]
      omega
    · rw [hend]
      omega
    · have hslot : i / pageSize < pagesFor size := by
        rw [Nat.div_lt_iff_lt_mul (by decide)]
        omega
      obtain ⟨g, hg, -⟩ := hmapped _ hslot
      obtain ⟨m₂, heq, -, hslots, -⟩ := harena.store_header (by omega) hf hback size (pagesFor size)
      rw [heq, slotAddr_add, mapped_slotAddr_add _ (Nat.mod_lt _ (by decide)), hslots, hg]
      rfl

/-- Two pages for 5000 bytes. -/
theorem kmalloc_covers_iff_twoPages :
    (kmalloc 5000 (freshHeap 5)).1 = heapStart + 16 ∧
      Covers heapStart 5000 (kmalloc 5000 (freshHeap 5)).2 := by
  have hptr : (kmalloc 5000 (freshHeap 5)).1 = heapStart + 16 := by decide
  have hcall : kmalloc 5000 (freshHeap 5) = (heapStart + 16, (kmalloc 5000 (freshHeap 5)).2) :=
    Prod.ext hptr rfl
  have hiff := kmalloc_covers_iff (freshHeap_ready (by decide)) (by decide) hcall (by decide)
  exact ⟨hptr, (hiff.mpr (by decide)).2⟩

/-- A block of almost 2^64 bytes with one page. -/
theorem kmalloc_short : (freshHeap 4).Ready ∧
    (kmalloc (2 ^ 64 - 1) (freshHeap 4)).1 = heapStart + headerSize ∧
    (kmalloc (2 ^ 64 - 1) (freshHeap 4)).2.current = heapStart + pageSize ∧
    ¬Covers heapStart (2 ^ 64 - 1) (kmalloc (2 ^ 64 - 1) (freshHeap 4)).2 := by
  have hends : (kmalloc (2 ^ 64 - 1) (freshHeap 4)).1 = heapStart + headerSize ∧
      (kmalloc (2 ^ 64 - 1) (freshHeap 4)).2.current = heapStart + pageSize := by
    decide
  refine ⟨freshHeap_ready (by decide), hends.1, hends.2, fun hcovers => ?_⟩
  have hbyte := (hcovers pageSize (by decide)).1
  rw [hends.2] at hbyte
  exact lt_irrefl _ hbyte

/-- A call had no effect: slots and the next page are as they were, and pages that are no longer free
are tables. -/
structure Unaffected (s s' : Heap) : Prop where
  slots : ∀ k < slotCount, slot s'.machine k = slot s.machine k
  current : s'.current = s.current
  frames : ∀ page ∈ freeSet s.machine.pmm, page ∉ freeSet s'.machine.pmm →
    ∃ a, Reached (child s'.machine) s'.machine.root a ∧ a.frame / pageSize = page

private theorem kmalloc_eq_none (h : s.Ready) (hzero : size ≠ 0) (hcall : kmalloc size s = (0, s')) :
    mapPages (pagesFor size) s = (false, s') := by
  unfold kmalloc at hcall
  rw [if_neg hzero] at hcall
  split at hcall
  · next t ht =>
    cases hcall
    exact ht
  · next t ht =>
    -- The pointer behind a header is not null.
    obtain ⟨count, hcount, hcurrent⟩ := h.current
    have hptr := congrArg Prod.fst hcall
    rw [hcurrent] at hptr
    unfold slotAddr heapStart headerSize pageSize at hptr
    omega

private theorem mapPages_empty (hfree : freeSet s.machine.pmm = ∅)
    (h : mapPages pages s = (false, s')) : s' = s := by
  cases pages with
  | zero => cases h
  | succ pages =>
    rw [mapPages] at h
    rcases takePage_cases s.machine with ⟨-, heq⟩ | ⟨page, pmm, hpage, -⟩
    · rw [heq] at h
      cases h
      rfl
    · rw [hfree] at hpage
      exact absurd hpage (Finset.notMem_empty _)

private theorem Heap.Ready.mapPages_affects (h : s.Ready) (hpages : pages * pageSize < 2 ^ 64)
    (hfree : (freeSet s.machine.pmm).Nonempty) (hcall : mapPages pages s = (false, s')) :
    ¬Unaffected s s' := by
  intro hsame
  obtain ⟨count, hcount, hcurrent⟩ := h.current
  cases pages with
  | zero => cases hcall
  | succ pages =>
    have hlt := h.current_lt
    rw [mapPages] at hcall
    obtain ⟨hempty, -⟩ | ⟨page, pmm, hpage, herase, htotal, heq⟩ := takePage_cases s.machine
    · exact absurd hempty hfree.ne_empty
    rw [heq] at hcall
    dsimp only at hcall
    have hgone : page ∉ freeSet pmm := by
      rw [herase]
      exact Finset.notMem_erase _ _
    split at hcall
    · -- The frame 0 is taken for a failure, and is not free any more.
      cases hcall
      obtain ⟨a, ha, hframe⟩ := hsame.frames page hpage hgone
      exact h.arena.owned.used a ha (hframe ▸ hpage)
    · next hne =>
      have hzero := left_ne_zero_of_mul hne
      rw [hcurrent] at hcall hlt
      obtain ⟨ok, m₁, hmap, -, hback, -⟩ := h.arena.mapPage_turn hcount hpage herase htotal hzero
      rw [hmap] at hcall
      cases ok with
      | false =>
        -- The frame could not be mapped and is lost.
        cases hcall
        obtain ⟨_, hpages, -, -, hused, htable⟩ := hback
        cases Nat.eq_of_mul_eq_mul_right (by decide) hpages
        obtain ⟨a, ha, hframe⟩ := hsame.frames page hpage hused
        exact htable a ha hframe
      | true =>
        -- The next page has moved.
        obtain ⟨j, hj, hend, -⟩ := mapPages_current (Nat.mod_lt _ (by decide)) hcall
        have hmoved := hsame.current
        rw [hend, hcurrent] at hmoved
        dsimp only at hmoved
        unfold pageSize at hmoved hpages
        omega

/-- A call that fails has no effect if and only if no page is free. -/
theorem kmalloc_unaffected_iff (h : s.Ready) {size : Nat} (hzero : size ≠ 0)
    (hcall : kmalloc size s = (0, s')) : Unaffected s s' ↔ freeSet s.machine.pmm = ∅ := by
  have hloop := kmalloc_eq_none h hzero hcall
  constructor
  · intro hsame
    by_contra hfree
    exact h.mapPages_affects (pagesFor_mul_lt size) (Finset.nonempty_iff_ne_empty.mpr hfree) hloop
      hsame
  · intro hfree
    obtain rfl := mapPages_empty hfree hloop
    exact ⟨fun _ _ => rfl, rfl, fun page hpage hgone => absurd hpage hgone⟩

/-- Nothing is free, and the call changes nothing. -/
theorem kmalloc_unaffected_iff_full : (kmalloc 1 (freshHeap 0)).1 = 0 ∧
    Unaffected (freshHeap 0) (kmalloc 1 (freshHeap 0)).2 := by
  have hcall : (kmalloc 1 (freshHeap 0)).1 = 0 ∧ freeSet (freshHeap 0).machine.pmm = ∅ := by
    decide
  refine ⟨hcall.1, ?_⟩
  exact (kmalloc_unaffected_iff (freshHeap_ready (by decide)) (by decide)
    (Prod.ext hcall.1 rfl)).mpr hcall.2

/-- Four free pages are enough for three tables and one of two pages: the page stays mapped, and the
next page is behind it. -/
theorem kmalloc_leaks : (freshHeap 4).Ready ∧ (kmalloc 5000 (freshHeap 4)).1 = 0 ∧
    (kmalloc 5000 (freshHeap 4)).2.current = heapStart + pageSize ∧
    slot (kmalloc 5000 (freshHeap 4)).2.machine 0 = some (2 * pageSize) ∧
    ¬Unaffected (freshHeap 4) (kmalloc 5000 (freshHeap 4)).2 := by
  have hends : (kmalloc 5000 (freshHeap 4)).1 = 0 ∧
      (kmalloc 5000 (freshHeap 4)).2.current = heapStart + pageSize ∧
      slot (kmalloc 5000 (freshHeap 4)).2.machine 0 = some (2 * pageSize) := by
    decide
  refine ⟨freshHeap_ready (by decide), hends.1, hends.2.1, hends.2.2, fun hsame => ?_⟩
  have hcurrent := hsame.current
  rw [hends.2.1] at hcurrent
  cases hcurrent

end NasuaOS.Memory
