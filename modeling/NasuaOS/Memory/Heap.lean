import NasuaOS.Memory.Mappings

/-!
# Kernel heap

`src/resources/drivers/memory/functions/heap.cpp`. A block is a run of whole pages behind a bump
pointer, with a header of two words in front. Memory behind an address of the heap is the frame that
the kernel's tables map its page to; messages are left out.
-/

namespace NasuaOS.Memory

open Base Finset

/-- `HEAP_START`. -/
def heapStart : Nat := 0xFFFF900000000000

/-- `sizeof(heap_header)`. -/
def headerSize : Nat := 16

/-- The machine and `heap_current`. -/
structure Heap where
  machine : Machine
  current : Nat

namespace Machine

/-- The word at a virtual address. -/
def load (m : Machine) (virt : Nat) : Nat := m.mem (translate virt m) (wordIndex virt)

/-- Set the word at a virtual address. Without a page there it is frame 0 that changes; the processor
would fault. -/
def store (m : Machine) (virt value : Nat) : Machine :=
  m.write (translate virt m) (wordIndex virt) value

end Machine

/-- The loop of `kmalloc`: map pages one after another. -/
def mapPages : Nat → Heap → Bool × Heap
  | 0, s => (true, s)
  | count + 1, s =>
    match takePage s.machine with
    | (phys, m) =>
      if phys = 0 then (false, ⟨m, s.current⟩)
      else
        match mapPage s.current phys pageWrite m with
        | (false, m) => (false, ⟨m, s.current⟩)
        | (true, m) => mapPages count ⟨m, (s.current + pageSize) % 2 ^ 64⟩

/-- The pages for a block with its header. -/
def pagesFor (size : Nat) : Nat :=
  ((size + headerSize) % 2 ^ 64 + pageSize - 1) % 2 ^ 64 / pageSize

/-- `kmalloc`; 0 stands for the null pointer. -/
def kmalloc (size : Nat) (s : Heap) : Nat × Heap :=
  if size = 0 then (0, s)
  else
    match mapPages (pagesFor size) s with
    | (false, s') => (0, s')
    | (true, s') =>
      ((s.current + headerSize) % 2 ^ 64, { s' with
          machine := (s'.machine.store s.current size).store (s.current + 8) (pagesFor size) })

/-- The body of the loop of `kfree`. -/
def releasePage (m : Machine) (virt : Nat) : Machine :=
  if translate virt m ≠ 0 then (unmapPage virt m).2.free (translate virt m) else m

/-- `kfree`. -/
def kfree (ptr : Nat) (s : Heap) : Heap :=
  if ptr = 0 then s
  else
    let start := (ptr + (2 ^ 64 - headerSize)) % 2 ^ 64
    { s with
      machine := (List.range (s.machine.load (start + 8))).foldl
        (fun m i => releasePage m ((start + i * pageSize) % 2 ^ 64)) s.machine }

/-! ### Slots of the heap -/

/-- The address of the page at a position of the heap. -/
def slotAddr (k : Nat) : Nat := heapStart + pageSize * k

/-- The positions from `HEAP_START` to the top of the address space. -/
def slotCount : Nat := 7 * 2 ^ 32

variable {k f page : Nat} {pmm : Pmm} {lost : Finset Nat}

/-- The page of a slot has the addresses behind its own. -/
theorem pageOf_slotAddr_add {i : Nat} (hi : i < pageSize) :
    pageOf (slotAddr k + i) = pageOf (slotAddr k) := by
  unfold pageSize at hi
  unfold pageOf slotAddr heapStart pageSize
  omega

/-- The slot behind a slot. -/
theorem slotAddr_succ (hk : k + 1 < slotCount) :
    (slotAddr k + pageSize) % 2 ^ 64 = slotAddr (k + 1) := by
  unfold slotCount at hk
  unfold slotAddr heapStart pageSize
  omega

/-- What is mapped at a slot. -/
def slot (m : Machine) (k : Nat) : Option Nat := mapped (slotAddr k) m

/-- A frame that a slot can have: a page that is not free and holds no table. -/
def Backing (m : Machine) (f : Nat) : Prop :=
  ∃ page, f = page * pageSize ∧ page ≠ 0 ∧ page < m.pmm.totalPages ∧ page ∉ freeSet m.pmm ∧
    ∀ a, Reached (child m) m.root a → a.frame / pageSize ≠ page

private theorem Backing.ne_table {m : Machine} (h : Backing m f) {a : Table}
    (ha : Reached (child m) m.root a) : a.frame ≠ f := by
  obtain ⟨page, rfl, -, -, -, htable⟩ := h
  intro heq
  apply htable a ha
  rw [heq, Nat.mul_div_cancel _ (by decide)]

/-- The first slots of a heap: the tables are in order, the bitmap of the page manager has room, no
large page is in the way, and every slot that is mapped has a frame of its own. -/
structure Arena (m : Machine) (count : Nat) : Prop where
  owned : TablesOwned m
  small : m.pmm.totalPages ≤ 2 ^ 23
  largeFree : ∀ k < slotCount, LargeFree (slotAddr k) m
  backing : ∀ k < count, ∀ f, slot m k = some f → Backing m f
  apart : ∀ j < count, ∀ k < count, ∀ f, slot m j = some f → slot m k = some f → j = k

/-- The first slots of two machines agree, and so do the words of their frames. -/
def KeepsSlots (m m' : Machine) (count : Nat) : Prop :=
  ∀ k < count, slot m' k = slot m k ∧ ∀ f, slot m k = some f → m'.mem f = m.mem f

variable {count : Nat} {m m' m'' : Machine}

private theorem KeepsSlots.trans (h : KeepsSlots m m' count) (h' : KeepsSlots m' m'' count) :
    KeepsSlots m m'' count := by
  intro k hk
  obtain ⟨hslot, hwords⟩ := h k hk
  obtain ⟨hslot', hwords'⟩ := h' k hk
  refine ⟨hslot'.trans hslot, ?_⟩
  intro f hf
  exact (hwords' f (hslot.trans hf)).trans (hwords f hf)

private theorem KeepsSlots.mono {count' : Nat} (h : KeepsSlots m m' count') (hle : count ≤ count') :
    KeepsSlots m m' count :=
  fun k hk => h k (Nat.lt_of_lt_of_le hk hle)

private theorem Backing.grown (h : Backing m f) (hg : Grown m m') : Backing m' f ∧ m'.mem f = m.mem f := by
  have htables (a : Table) (ha : Reached (child m) m.root a) : a.frame ≠ f := h.ne_table ha
  obtain ⟨page, rfl, hne, hlt, hfree, htable⟩ := h
  refine ⟨⟨page, rfl, hne, by rwa [hg.total], fun hmem => hfree (hg.free hmem), ?_⟩, ?_⟩
  · intro a ha heq
    rcases hg.fresh a ha with ha | ha
    · exact htable a ha heq
    · exact hfree (heq ▸ ha)
  · apply hg.kept _ _ htables
    rw [Nat.mul_div_cancel _ (by decide)]
    exact hfree

private theorem Arena.of_slots (h : Arena m count) (h' : Arena m' 0)
    (hslot : ∀ k < count, slot m' k = slot m k) (hback : ∀ f, Backing m f → Backing m' f) :
    Arena m' count := by
  refine ⟨h'.owned, h'.small, h'.largeFree, ?_, ?_⟩
  · intro k hk f hf
    rw [hslot k hk] at hf
    exact hback f (h.backing k hk f hf)
  · intro j hj k hk f hjf hkf
    rw [hslot j hj] at hjf
    rw [hslot k hk] at hkf
    exact h.apart j hj k hk f hjf hkf

private theorem Arena.grown (h : Arena m count) (hg : Grown m m') :
    Arena m' count ∧ KeepsSlots m m' count := by
  have hslot (k : Nat) : slot m' k = slot m k := hg.mapped _
  have harena : Arena m' 0 :=
    ⟨hg.owned, hg.total ▸ h.small, fun k hk => hg.largeFree (h.largeFree k hk), by simp, by simp⟩
  refine ⟨h.of_slots harena (fun k _ => hslot k) fun f hf => (hf.grown hg).1, fun k hk => ?_⟩
  exact ⟨hslot k, fun f hf => ((h.backing k hk f hf).grown hg).2⟩

private theorem TablesOwned.reached_write (h : TablesOwned m) {n : Table}
    (hn : Reached (child m) m.root n) (hlevel : n.level = 3) (i : Fin 512) (e : Nat) (a : Table) :
    Reached (child (m.write n.frame i e)) (m.write n.frame i e).root a ↔
      Reached (child m) m.root a := by
  apply exists_congr
  intro p
  change walk (child (m.write n.frame i e)) m.root p = some a ↔ _
  rw [walk_eq_of_reached (h.child_write i e hn hlevel)]

private theorem Arena.write (h : Arena m count) {n : Table}
    (hn : walk (child m) m.root (tableIndices (slotAddr k)) = some n) (hk : k < slotCount) (e : Nat) :
    TablesOwned (m.write n.frame (tableIndex (slotAddr k) 12) e) ∧
      (∀ j < slotCount, LargeFree (slotAddr j) (m.write n.frame (tableIndex (slotAddr k) 12) e)) ∧
      (∀ j < slotCount, slot (m.write n.frame (tableIndex (slotAddr k) 12) e) j =
        if j = k then (Resolved.ofEntry e).frame else slot m j) ∧
      (∀ f, Backing m f → Backing (m.write n.frame (tableIndex (slotAddr k) 12) e) f ∧
        (m.write n.frame (tableIndex (slotAddr k) 12) e).mem f = m.mem f) := by
  have hreach : Reached (child m) m.root n := ⟨_, hn⟩
  have hlevel := level_of_tableIndices hn
  refine ⟨h.owned.write _ _ hreach hlevel, ?_, ?_, ?_⟩
  · intro j hj
    exact h.owned.largeFree_write hn e (h.largeFree j hj)
  · intro j hj
    rw [slot, h.owned.mapped_write hn, slot]
    by_cases hjk : j = k
    · rw [if_pos hjk, if_pos (by rw [hjk])]
    · rw [if_neg hjk, if_neg]
      unfold pageOf slotAddr heapStart pageSize
      unfold slotCount at hj hk
      omega
  · intro f hback
    refine ⟨?_, ?_⟩
    · obtain ⟨page, rfl, hne, hlt, hfree, htable⟩ := hback
      refine ⟨page, rfl, hne, hlt, hfree, ?_⟩
      intro a ha
      exact htable a ((h.owned.reached_write hreach hlevel _ e a).mp ha)
    · ext j
      exact m.mem_write_of_ne (hback.ne_table hreach).symm _ _ e

private theorem TablesOwned.backing_taken (h : TablesOwned m) (hpage : page ∈ freeSet m.pmm)
    (hfree : freeSet pmm = (freeSet m.pmm).erase page) (htotal : pmm.totalPages = m.pmm.totalPages)
    (hne : page ≠ 0) : Backing { m with pmm := pmm } (page * pageSize) := by
  refine ⟨page, rfl, hne, ?_, ?_, ?_⟩
  · rw [htotal]
    exact (mem_freeSet.mp hpage).1
  · rw [hfree]
    exact notMem_erase _ _
  · intro a ha heq
    exact h.used a ha (heq ▸ hpage)

section

variable (h : Arena m count)

include h

/-- `map_page` for a slot with a page that was free: the slot gets the page if it succeeds, all other
slots stay, and so do the frames. -/
theorem Arena.mapPage_turn (hk : k < slotCount) (hpage : page ∈ freeSet m.pmm)
    (hfree : freeSet pmm = (freeSet m.pmm).erase page) (htotal : pmm.totalPages = m.pmm.totalPages)
    (hne : page ≠ 0) :
    ∃ ok m₁, mapPage (slotAddr k) (page * pageSize) pageWrite { m with pmm := pmm } = (ok, m₁) ∧
      Arena m₁ 0 ∧ Backing m₁ (page * pageSize) ∧ (∀ j < slotCount, slot m₁ j =
        if ok = true ∧ j = k then some (page * pageSize) else slot m j) ∧
      ∀ f, Backing m f → Backing m₁ f ∧ m₁.mem f = m.mem f := by
  have htake : Grown m { m with pmm := pmm } :=
    h.owned.grown_pmm (hfree ▸ erase_subset _ _) htotal
  have htaken := h.owned.backing_taken hpage hfree htotal hne
  have hempty : Arena m 0 := ⟨h.owned, h.small, h.largeFree, by simp, by simp⟩
  rcases htake.owned.mapPage_cases (htake.largeFree (h.largeFree k hk)) (page * pageSize)
    pageWrite with ⟨m₁, hgrown, heq⟩ | ⟨m₁, n, hgrown, hn, heq⟩
  · have hg := htake.trans hgrown
    refine ⟨false, m₁, heq, (hempty.grown hg).1, (htaken.grown hgrown).1, fun j _ => ?_,
      fun f hf => hf.grown hg⟩
    rw [if_neg (by simp)]
    exact hg.mapped _
  · have hg := htake.trans hgrown
    have harena := (hempty.grown hg).1
    obtain ⟨howned, hlarge, hslots, hback⟩ := harena.write hn hk
      (kernelLeaf (page * pageSize) pageWrite)
    have hsmall : page * pageSize < 2 ^ 52 := by
      have hlt := (mem_freeSet.mp hpage).1
      have htotal := h.small
      unfold pageSize
      omega
    have hentry : (Resolved.ofEntry (kernelLeaf (page * pageSize) pageWrite)).frame =
        some (page * pageSize) := by
      have hflags : pageWrite = PageFlags.bits ⟨false, true, false, false⟩ := by decide
      rw [Resolved.ofEntry, if_pos (present_kernelLeaf _ _), Resolved.frame, hflags,
        frameOf_kernelLeaf _ (Nat.dvd_mul_left _ _) hsmall]
    refine ⟨true, _, heq, ⟨howned, harena.small, hlarge, by simp, by simp⟩,
      (hback _ (htaken.grown hgrown).1).1, fun j hj => ?_, fun f hf => ?_⟩
    · rw [hslots j hj, hentry]
      simp only [true_and]
      exact if_congr Iff.rfl rfl (hg.mapped _)
    · obtain ⟨hf, hwords⟩ := hf.grown hg
      exact ⟨(hback f hf).1, (hback f hf).2.trans hwords⟩

private theorem Arena.mapPage_slot (hcount : count < slotCount) (hpage : page ∈ freeSet m.pmm)
    (hfree : freeSet pmm = (freeSet m.pmm).erase page) (htotal : pmm.totalPages = m.pmm.totalPages)
    (hne : page ≠ 0) :
    (∃ m₁, mapPage (slotAddr count) (page * pageSize) pageWrite { m with pmm := pmm } =
        (false, m₁) ∧ Arena m₁ count ∧ KeepsSlots m m₁ count) ∨
    ∃ m₁, mapPage (slotAddr count) (page * pageSize) pageWrite { m with pmm := pmm } =
        (true, m₁) ∧ Arena m₁ (count + 1) ∧ KeepsSlots m m₁ count ∧
        slot m₁ count = some (page * pageSize) := by
  obtain ⟨ok, m₁, heq, hempty, hnew, hslots, hback⟩ := h.mapPage_turn hcount hpage hfree htotal hne
  have hold (k : Nat) (hk : k < count) : slot m₁ k = slot m k := by
    rw [hslots k (Nat.lt_trans hk hcount), if_neg fun h => Nat.ne_of_lt hk h.2]
  have harena := h.of_slots hempty hold fun f hf => (hback f hf).1
  have hkeeps : KeepsSlots m m₁ count :=
    fun k hk => ⟨hold k hk, fun f hf => (hback f (h.backing k hk f hf)).2⟩
  cases ok with
  | false => exact .inl ⟨m₁, heq, harena, hkeeps⟩
  | true =>
    have hlast := (hslots count hcount).trans (if_pos ⟨rfl, rfl⟩)
    have hapart (k : Nat) (hk : k < count) : slot m₁ k ≠ some (page * pageSize) := by
      rw [hold k hk]
      intro hf
      obtain ⟨other, hsame, -, -, hother, -⟩ := h.backing k hk _ hf
      rw [← Nat.eq_of_mul_eq_mul_right (by decide) hsame] at hother
      exact hother hpage
    refine .inr ⟨m₁, heq, ⟨hempty.owned, hempty.small, hempty.largeFree, ?_, ?_⟩, hkeeps, hlast⟩
    · intro k hk f hf
      rcases Nat.lt_succ_iff_lt_or_eq.mp hk with hk | rfl
      · exact harena.backing k hk f hf
      · cases hlast.symm.trans hf
        exact hnew
    · intro j hj k hk f hjf hkf
      rcases Nat.lt_succ_iff_lt_or_eq.mp hj with hj | rfl <;>
        rcases Nat.lt_succ_iff_lt_or_eq.mp hk with hk | rfl
      · exact harena.apart j hj k hk f hjf hkf
      · exact absurd (hjf.trans (hkf.symm.trans hlast)) (hapart j hj)
      · exact absurd (hkf.trans (hjf.symm.trans hlast)) (hapart k hk)
      · rfl

/-- There are no more mapped slots than pages. -/
theorem Arena.card_le (hlost : ∀ k ∈ lost, k < count ∧ (slot m k).isSome = true) :
    lost.card ≤ m.pmm.totalPages := by
  have hmaps : ∀ k ∈ lost, (slot m k).getD 0 / pageSize ∈ range m.pmm.totalPages := by
    intro k hk
    obtain ⟨hlt, hsome⟩ := hlost k hk
    obtain ⟨f, hf⟩ := Option.isSome_iff_exists.mp hsome
    obtain ⟨page, rfl, -, hpage, -⟩ := h.backing k hlt f hf
    rw [hf, Option.getD_some, Nat.mul_div_cancel _ (by decide), mem_range]
    exact hpage
  have hinj : Set.InjOn (fun k => (slot m k).getD 0 / pageSize) lost := by
    intro j hj k hk heq
    obtain ⟨hjlt, hjsome⟩ := hlost j hj
    obtain ⟨hklt, hksome⟩ := hlost k hk
    obtain ⟨f, hf⟩ := Option.isSome_iff_exists.mp hjsome
    obtain ⟨g, hg⟩ := Option.isSome_iff_exists.mp hksome
    obtain ⟨page, rfl, -⟩ := h.backing j hjlt f hf
    obtain ⟨other, rfl, -⟩ := h.backing k hklt g hg
    dsimp only at heq
    rw [hf, hg, Option.getD_some, Option.getD_some, Nat.mul_div_cancel _ (by decide),
      Nat.mul_div_cancel _ (by decide)] at heq
    rw [← heq] at hg
    exact h.apart j hjlt k hklt _ hf hg
  have hcard := card_le_card_of_injOn _ hmaps hinj
  rwa [card_range] at hcard

private theorem Arena.mapPages_spec {used : Nat} (hcount : count = used + lost.card)
    (hroom : used + 2 ^ 23 < slotCount) (hlost : ∀ k ∈ lost, k < count ∧ (slot m k).isSome = true)
    (pages : Nat) : ∃ ok j m', mapPages pages ⟨m, slotAddr count⟩ = (ok, ⟨m', slotAddr (count + j)⟩) ∧
      (ok = true → j = pages) ∧ Arena m' (count + j) ∧
      (∀ i < j, (slot m' (count + i)).isSome = true) ∧ KeepsSlots m m' count := by
  -- Over the turns of the loop; the slots mapped so far count as lost until the loop is through.
  induction pages generalizing m count lost with
  | zero => exact ⟨true, 0, m, rfl, fun _ => rfl, h, by simp, fun k hk => ⟨rfl, fun _ _ => rfl⟩⟩
  | succ pages ih =>
    have hcard := h.card_le hlost
    have htotal := h.small
    have hlt : count < slotCount := by omega
    rw [mapPages]
    rcases takePage_cases m with ⟨-, heq⟩ | ⟨page, pmm, hpage, hfree, hpmm, heq⟩
    · rw [heq]
      exact ⟨false, 0, m, rfl, nofun, h, by simp, fun k hk => ⟨rfl, fun _ _ => rfl⟩⟩
    rw [heq]
    dsimp only
    split
    · have hgrown := h.owned.grown_pmm (hfree ▸ erase_subset _ _) hpmm
      obtain ⟨harena, hkeeps⟩ := h.grown hgrown
      exact ⟨false, 0, _, rfl, nofun, harena, by simp, hkeeps⟩
    next hne =>
    have hzero := left_ne_zero_of_mul hne
    rcases h.mapPage_slot hlt hpage hfree hpmm hzero with
      ⟨m₁, heq, harena, hkeeps⟩ | ⟨m₁, heq, harena, hkeeps, hslot⟩
    · rw [heq]
      exact ⟨false, 0, m₁, rfl, nofun, harena, by simp, hkeeps⟩
    rw [heq]
    have hfresh : count ∉ lost := fun hmem => Nat.lt_irrefl _ (hlost count hmem).1
    have hlost' : ∀ k ∈ insert count lost, k < count + 1 ∧ (slot m₁ k).isSome = true := by
      intro k hk
      rw [mem_insert] at hk
      rcases hk with rfl | hk
      · exact ⟨Nat.lt_succ_self _, by rw [hslot]; rfl⟩
      · obtain ⟨hklt, hsome⟩ := hlost k hk
        exact ⟨Nat.lt_succ_of_lt hklt, by rw [(hkeeps k hklt).1]; exact hsome⟩
    have hcard' := harena.card_le hlost'
    rw [card_insert_of_notMem hfresh] at hcard'
    have htotal' := harena.small
    rw [slotAddr_succ (by omega)]
    obtain ⟨ok, j, m', hrest, hj, harena', hmapped, hkeeps'⟩ := ih harena
      (by rw [card_insert_of_notMem hfresh]; omega) hlost'
    have hadd : count + 1 + j = count + (j + 1) := by omega
    refine ⟨ok, j + 1, m', hadd ▸ hrest, fun hok => by rw [hj hok], hadd ▸ harena', ?_, ?_⟩
    · intro i hi
      cases i with
      | zero =>
        have hfirst := (hkeeps' count (Nat.lt_succ_self _)).1
        change (slot _ count).isSome = true
        rw [hfirst, hslot]
        rfl
      | succ i =>
        have hsome := hmapped i (by omega)
        rwa [Nat.add_right_comm, Nat.add_assoc] at hsome
    · exact hkeeps.trans (hkeeps'.mono (Nat.le_succ _))

/-! ### Memory behind slots -/

/-- A slot that is mapped is translated. -/
theorem Arena.translate_slot {i : Nat} (hk : k < slotCount) (hi : i < pageSize)
    (hf : slot m k = some f) :
    mapped (slotAddr k + i) m = some f ∧ translate (slotAddr k + i) m = f := by
  have hresolve := resolve_congr (pageOf_slotAddr_add hi : pageOf (slotAddr k + i) = _) m
  have hmapped : mapped (slotAddr k + i) m = some f := by
    rw [mapped, hresolve]
    exact hf
  have hlarge : LargeFree (slotAddr k + i) m := by
    intro level entry
    rw [hresolve]
    exact h.largeFree k hk level entry
  exact ⟨hmapped, by rw [hlarge.translate_eq, hmapped]; rfl⟩

end

private theorem Backing.touch (h : Backing m f) (hsame : SameTables m m') (hpmm : m'.pmm = m.pmm) :
    Backing m' f := by
  obtain ⟨page, rfl, hne, hlt, hfree, htable⟩ := h
  refine ⟨page, rfl, hne, by rwa [hpmm], by rwa [hpmm], ?_⟩
  intro a ha
  exact htable a ((hsame.reached_iff a).mp ha)

/-- Memory may change outside the tables. -/
theorem Arena.touch (h : Arena m count) (hsame : SameTables m m') (hpmm : m'.pmm = m.pmm) :
    Arena m' count ∧ ∀ k, slot m' k = slot m k := by
  have hslot (k : Nat) : slot m' k = slot m k := by
    rw [slot, mapped, hsame.resolve_eq]
    rfl
  have harena : Arena m' 0 := by
    refine ⟨hsame.owned h.owned (by rw [hpmm]) (by rw [hpmm]; exact h.owned.used),
      by rw [hpmm]; exact h.small, ?_, by simp, by simp⟩
    intro k hk level entry
    rw [hsame.resolve_eq]
    exact h.largeFree k hk level entry
  exact ⟨h.of_slots harena (fun k _ => hslot k) fun f hf => hf.touch hsame hpmm, hslot⟩

private theorem Backing.sameTables_write (h : Backing m f) (i : Fin 512) (e : Nat) :
    SameTables m (m.write f i e) := by
  refine ⟨rfl, fun a ha => ?_⟩
  ext j
  exact m.mem_write_of_ne (h.ne_table ha) _ _ e

private theorem Arena.releasePage_slot (h : Arena m count) (hk : k < count)
    (hcount : count ≤ slotCount) (hf : slot m k = some (page * pageSize)) :
    ∃ m', releasePage m (slotAddr k) = m' ∧ Arena m' count ∧
      freeSet m'.pmm = insert page (freeSet m.pmm) ∧
      (∀ j < count, slot m' j = if j = k then none else slot m j) ∧
      ∀ j < count, j ≠ k → ∀ f, slot m j = some f → m'.mem f = m.mem f := by
  have hback := h.backing k hk _ hf
  obtain ⟨_, heq, hne, hlt, hfree, htable⟩ := hback
  cases Nat.eq_of_mul_eq_mul_right (by decide) heq
  have hkcount : k < slotCount := Nat.lt_of_lt_of_le hk hcount
  have htranslate : translate (slotAddr k) m = page * pageSize :=
    (h.translate_slot hkcount (i := 0) (by decide) hf).2
  rcases (h.largeFree k hkcount).unmapPage_cases with ⟨hnone, -⟩ | ⟨n, frame, hn, -, hunmap⟩
  · rw [slot, hnone] at hf
    cases hf
  obtain ⟨howned, hlarge, hslots, hkeeps⟩ := h.write hn hkcount 0
  obtain ⟨hfree', htotal⟩ := freeSet_freePage hne hlt hfree
  have hreach (a : Table) := h.owned.reached_write ⟨_, hn⟩ (level_of_tableIndices hn)
    (tableIndex (slotAddr k) 12) 0 a
  have hpmm : (m.write n.frame (tableIndex (slotAddr k) 12) 0).pmm = m.pmm := rfl
  generalize m.write n.frame (tableIndex (slotAddr k) 12) 0 = m₁ at *
  have hback : (m₁.free (page * pageSize)).pmm = freePage m.pmm (page * pageSize) :=
    congrArg (freePage · _) hpmm
  rw [← hback] at hfree' htotal
  -- Giving the page back changes no table.
  have hsame : SameTables m₁ (m₁.free (page * pageSize)) := ⟨rfl, fun _ _ => rfl⟩
  have hslot (j : Nat) (hj : j < count) : slot (m₁.free (page * pageSize)) j =
      if j = k then none else slot m j := by
    rw [slot, mapped, hsame.resolve_eq]
    exact hslots j (Nat.lt_of_lt_of_le hj hcount)
  refine ⟨m₁.free (page * pageSize), ?_, ⟨?_, ?_, ?_, ?_, ?_⟩, hfree', hslot, ?_⟩
  · rw [releasePage, htranslate, if_pos (Nat.mul_ne_zero hne (by decide)), hunmap]
  · apply hsame.owned howned (htotal.trans (congrArg Pmm.totalPages hpmm.symm))
    intro a ha hmem
    rcases mem_insert.mp (hfree' ▸ hmem) with hpage | hmem
    · exact htable a ((hreach a).mp ha) hpage
    · exact h.owned.used a ((hreach a).mp ha) hmem
  · exact htotal.trans_le h.small
  · intro j hj level entry
    rw [hsame.resolve_eq]
    exact hlarge j hj level entry
  · intro j hj f hjf
    rw [hslot j hj] at hjf
    split at hjf
    · cases hjf
    next hjk =>
    obtain ⟨other, rfl, hone, holt, hofree, hotable⟩ := h.backing j hj f hjf
    refine ⟨other, rfl, hone, holt.trans_eq htotal.symm, fun hmem => ?_, fun a ha => ?_⟩
    · rcases mem_insert.mp (hfree' ▸ hmem) with rfl | hmem
      · exact hjk (h.apart j hj k hk _ hjf hf)
      · exact hofree hmem
    · exact hotable a ((hreach a).mp ((hsame.reached_iff a).mp ha))
  · intro i hi j hj f hif hjf
    rw [hslot i hi] at hif
    rw [hslot j hj] at hjf
    split at hif
    · cases hif
    split at hjf
    · cases hjf
    exact h.apart i hi j hj f hif hjf
  · intro j hj _ f hjf
    exact (hkeeps f (h.backing j hj f hjf)).2

private theorem word_slotAddr (k : Nat) : wordIndex (slotAddr k) = 0 := by
  apply Fin.ext
  change slotAddr k / 8 % 512 = 0
  unfold slotAddr heapStart pageSize
  omega

/-- The word of a page that the second field of a header is in. -/
theorem word_slotAddr_add (k : Nat) : wordIndex (slotAddr k + 8) = 1 := by
  apply Fin.ext
  change (slotAddr k + 8) / 8 % 512 = 1
  unfold slotAddr heapStart pageSize
  omega

/-- The header of a block is written into the frame of its first slot. -/
theorem Arena.store_header (h : Arena m count) (hk : k < slotCount) (hf : slot m k = some f)
    (hback : Backing m f) (size pages : Nat) :
    ∃ m', (m.store (slotAddr k) size).store (slotAddr k + 8) pages = m' ∧ Arena m' count ∧
      (∀ j, slot m' j = slot m j) ∧ m'.mem f 1 = pages ∧ ∀ g, g ≠ f → m'.mem g = m.mem g := by
  have hfirst : m.store (slotAddr k) size = m.write f 0 size := by
    rw [Machine.store, word_slotAddr]
    exact congrArg (m.write · 0 size) (h.translate_slot hk (i := 0) (by decide) hf).2
  have hsame := hback.sameTables_write 0 size
  obtain ⟨harena, hslots⟩ := h.touch hsame rfl
  have hf' : slot (m.write f 0 size) k = some f := (hslots k).trans hf
  have hsecond : (m.store (slotAddr k) size).store (slotAddr k + 8) pages =
      (m.write f 0 size).write f 1 pages := by
    rw [hfirst, Machine.store, word_slotAddr_add]
    exact congrArg ((m.write f 0 size).write · 1 pages)
      (harena.translate_slot hk (by decide) hf').2
  obtain ⟨harena', hslots'⟩ :=
    harena.touch ((hback.touch hsame rfl).sameTables_write 1 pages) rfl
  refine ⟨_, hsecond, harena', fun j => (hslots' j).trans (hslots j), ?_, ?_⟩
  · exact if_pos ⟨rfl, rfl⟩
  · intro g hg
    ext j
    rw [Machine.mem_write_of_ne _ hg, Machine.mem_write_of_ne _ hg]

/-- What `kmalloc` does: it fails with some more slots mapped, or it maps the slots of a block and
writes the header. -/
theorem Arena.kmalloc_cases {used : Nat} (h : Arena m count) (hcount : count = used + lost.card)
    (hroom : used + 2 ^ 23 < slotCount) (hlost : ∀ k ∈ lost, k < count ∧ (slot m k).isSome = true)
    {size : Nat} (hsize : size < 2 ^ 48) : ∃ j m', Arena m' (count + j) ∧ KeepsSlots m m' count ∧
      (∀ i < j, (slot m' (count + i)).isSome = true) ∧
      (kmalloc size ⟨m, slotAddr count⟩ = (0, ⟨m', slotAddr (count + j)⟩) ∨
        kmalloc size ⟨m, slotAddr count⟩ =
            (slotAddr count + headerSize, ⟨m', slotAddr (count + j)⟩) ∧
          j = pagesFor size ∧ ∀ f, slot m' count = some f → m'.mem f 1 = pagesFor size) := by
  have hcard := h.card_le hlost
  have htotal := h.small
  obtain ⟨ok, j, m', hmap, hj, harena, hmapped, hkeeps⟩ :=
    h.mapPages_spec hcount hroom hlost (pagesFor size)
  rw [kmalloc]
  split
  · exact ⟨0, m, h, fun k hk => ⟨rfl, fun _ _ => rfl⟩, by simp, .inl rfl⟩
  rw [hmap]
  cases ok with
  | false => exact ⟨j, m', harena, hkeeps, hmapped, .inl rfl⟩
  | true =>
    have hpages := hj rfl
    have hpos : 0 < j := by
      rw [hpages]
      unfold pagesFor headerSize pageSize
      omega
    obtain ⟨f, hf⟩ := Option.isSome_iff_exists.mp (hmapped 0 hpos)
    rw [Nat.add_zero] at hf
    have hptr : (slotAddr count + headerSize) % 2 ^ 64 = slotAddr count + headerSize := by
      unfold slotAddr heapStart headerSize pageSize
      unfold slotCount at hroom
      omega
    obtain ⟨m₂, heq, hheader, hslots, hword, hwords⟩ :=
      harena.store_header (by omega) hf (harena.backing _ (Nat.lt_add_of_pos_right hpos) f hf) size
        (pagesFor size)
    refine ⟨j, m₂, hheader, ?_, ?_, .inr ⟨by rw [← heq, hptr], hpages, ?_⟩⟩
    · intro k hk
      obtain ⟨hslot, hkept⟩ := hkeeps k hk
      refine ⟨(hslots k).trans hslot, ?_⟩
      intro g hg
      have hne : g ≠ f := by
        rintro rfl
        have heq := harena.apart k (Nat.lt_add_right j hk) count (Nat.lt_add_of_pos_right hpos) g
          (hslot.trans hg) hf
        exact Nat.lt_irrefl count (heq ▸ hk)
      exact (hwords g hne).trans (hkept g hg)
    · intro i hi
      rw [hslots]
      exact hmapped i hi
    · intro g hg
      rw [hslots, hf] at hg
      cases hg
      exact hword

/-- The loop of `kfree` unmaps slots and gives their frames back. -/
theorem Arena.releasePages (h : Arena m count) (hcount : count ≤ slotCount) {first n : Nat}
    {frames : List Nat} (hn : first + n ≤ count)
    (hframes : ∀ i < n, ∃ page, frames[i]? = some page ∧
      slot m (first + i) = some (page * pageSize)) : ∃ m', (List.range n).foldl
        (fun m i => releasePage m ((slotAddr first + i * pageSize) % 2 ^ 64)) m = m' ∧
      Arena m' count ∧ freeSet m'.pmm = freeSet m.pmm ∪ (frames.take n).toFinset ∧
      (∀ j < count, slot m' j = if first ≤ j ∧ j < first + n then none else slot m j) ∧
      ∀ j < count, ¬ (first ≤ j ∧ j < first + n) → ∀ f, slot m j = some f → m'.mem f = m.mem f := by
  -- Over the turns of the loop.
  induction n with
  | zero => exact ⟨m, rfl, h, by simp, fun j _ => by rw [if_neg (by omega)], fun _ _ _ _ _ => rfl⟩
  | succ n ih =>
    obtain ⟨m₁, hfold, harena, hfree, hslots, hwords⟩ :=
      ih (by omega) (fun i hi => hframes i (Nat.lt_succ_of_lt hi))
    obtain ⟨page, hpage, hslot⟩ := hframes n (Nat.lt_succ_self n)
    have haddr : (slotAddr first + n * pageSize) % 2 ^ 64 = slotAddr (first + n) := by
      unfold slotCount at hcount
      unfold slotAddr heapStart pageSize
      omega
    have hslot₁ : slot m₁ (first + n) = some (page * pageSize) := by
      rw [hslots _ (by omega), if_neg (by omega), hslot]
    obtain ⟨m₂, heq, harena', hfree', hslots', hwords'⟩ :=
      harena.releasePage_slot (by omega) hcount hslot₁
    refine ⟨m₂, ?_, harena', ?_, ?_, ?_⟩
    · rw [List.range_succ, List.foldl_append, hfold, List.foldl_cons, List.foldl_nil, haddr, heq]
    · rw [hfree', hfree, List.take_add_one, hpage, List.toFinset_append]
      ext other
      simp only [mem_insert, mem_union, Option.toList_some, List.toFinset_cons,
        List.toFinset_nil, notMem_empty, or_false]
      rw [or_comm, or_assoc]
    · intro j hj
      rw [hslots' j hj, hslots j hj]
      split
      · rw [if_pos (by omega)]
      · split
        · rw [if_pos (by omega)]
        · rw [if_neg (by omega)]
    · intro j hj hout f hf
      have hf₁ : slot m₁ j = some f := by
        rw [hslots j hj, if_neg (by omega), hf]
      exact (hwords' j hj (by omega) f hf₁).trans (hwords j hj (by omega) f hf)

end NasuaOS.Memory
