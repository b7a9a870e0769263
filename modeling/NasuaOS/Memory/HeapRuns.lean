import NasuaOS.Memory.Heap

/-!
# Runs of the kernel heap

`src/resources/drivers/memory/functions/heap.cpp:28-90`. Calls of `kmalloc` and `kfree` in any
order, failed ones included. Beside the heap stand the live blocks, each with the frames that were
behind it when it was allocated, and the bytes allocated so far.
-/

namespace NasuaOS.Memory

open Base Finset

/-- A block that `kmalloc` returned: the pointer, the size, and the pages behind it. -/
structure Block where
  ptr : Nat
  size : Nat
  frames : List Nat
deriving DecidableEq

namespace Block

/-- The block at a pointer, with the pages that are behind it. -/
def behind (m : Machine) (ptr size : Nat) : Block :=
  ⟨ptr, size, (List.range (pagesFor size)).map fun i =>
    translate (ptr - headerSize + i * pageSize) m / pageSize⟩

/-- The address of the header. -/
def start (b : Block) : Nat := b.ptr - headerSize

/-- The first slot. -/
def first (b : Block) : Nat := (b.start - heapStart) / pageSize

/-- The number of slots. -/
def pages (b : Block) : Nat := pagesFor b.size

/-- Two blocks have no slot in common. -/
def Apart (b c : Block) : Prop := b.first + b.pages ≤ c.first ∨ c.first + c.pages ≤ b.first

end Block

/-- The heap, the live blocks, and the bytes allocated so far. -/
structure HeapSystem where
  heap : Heap
  blocks : List Block
  allocated : Nat

namespace HeapSystem

/-- A call of `kmalloc`. -/
def malloc (size : Nat) (s : HeapSystem) : HeapSystem :=
  match kmalloc size s.heap with
  | (ptr, heap) =>
    if ptr = 0 then { s with heap := heap }
    else
      ⟨heap, Block.behind heap.machine ptr size :: s.blocks, s.allocated + pagesFor size * pageSize⟩

/-- A call of `kfree` for a live block. -/
def free (b : Block) (s : HeapSystem) : HeapSystem :=
  { s with heap := kfree b.ptr s.heap, blocks := s.blocks.erase b }

/-- Other code changes memory. -/
def touch (mem : Nat → Fin 512 → Nat) (s : HeapSystem) : HeapSystem :=
  { s with heap.machine.mem := mem }

/-- The states of a heap that has allocated less than a number of bytes. The memory behind blocks
changes freely; tables and the page counts in the headers of live blocks are left alone. -/
inductive Reachable (bytes : Nat) : HeapSystem → Prop where
  | start {m : Machine} (howned : TablesOwned m) (hsmall : m.pmm.totalPages ≤ 2 ^ 23)
      (hlarge : ∀ k < slotCount, LargeFree (slotAddr k) m) :
      Reachable bytes ⟨⟨m, heapStart⟩, [], 0⟩
  | malloc {s : HeapSystem} (hs : Reachable bytes s) {size : Nat} (hsize : size < 2 ^ 48)
      (hbytes : (s.malloc size).allocated < bytes) : Reachable bytes (s.malloc size)
  | free {s : HeapSystem} (hs : Reachable bytes s) {b : Block} (hb : b ∈ s.blocks) :
      Reachable bytes (s.free b)
  | touch {s : HeapSystem} (hs : Reachable bytes s) {mem : Nat → Fin 512 → Nat}
      (htables : SameTables s.heap.machine { s.heap.machine with mem := mem })
      (hheaders : ∀ b ∈ s.blocks, (s.touch mem).heap.machine.load (b.start + 8) =
        s.heap.machine.load (b.start + 8)) : Reachable bytes (s.touch mem)

end HeapSystem

private theorem le_pagesFor {size : Nat} (h : size < 2 ^ 48) :
    size + headerSize ≤ pagesFor size * pageSize := by
  unfold pagesFor headerSize pageSize
  omega

variable {m m' : Machine} {count : Nat} {b c : Block}

private theorem Arena.load_header (h : Arena m count) {k f : Nat} (hk : k < slotCount)
    (hf : slot m k = some f) : m.load (slotAddr k + 8) = m.mem f 1 := by
  rw [Machine.load, (h.translate_slot hk (by decide) hf).2, word_slotAddr_add]

namespace Block

private theorem Apart.symm (h : Apart b c) : Apart c b := Or.symm h

/-- A live block: its slots are mapped to its frames, and its header counts them. -/
structure Placed (m : Machine) (count : Nat) (b : Block) : Prop where
  ptr : b.ptr = slotAddr b.first + headerSize
  size : b.size < 2 ^ 48
  inside : b.first + b.pages ≤ count
  length : b.frames.length = b.pages
  slots : ∀ i < b.pages, ∃ page, b.frames[i]? = some page ∧
    slot m (b.first + i) = some (page * pageSize)
  header : ∀ f, slot m b.first = some f → m.mem f 1 = b.pages

namespace Placed

private theorem start_eq (h : b.Placed m count) : b.start = slotAddr b.first := by
  rw [start, h.ptr, Nat.add_sub_cancel]

private theorem pages_pos (h : b.Placed m count) : 0 < b.pages := by
  have hle := le_pagesFor h.size
  unfold pages
  unfold headerSize at hle
  apply Nat.pos_of_ne_zero
  intro hzero
  rw [hzero] at hle
  omega

private theorem keeps (h : b.Placed m count) {count' : Nat} (hcount : count ≤ count')
    (hslots : ∀ i < b.pages, slot m' (b.first + i) = slot m (b.first + i))
    (hheader : ∀ f, slot m b.first = some f → m'.mem f 1 = m.mem f 1) :
    b.Placed m' count' where
  ptr := h.ptr
  size := h.size
  inside := Nat.le_trans h.inside hcount
  length := h.length
  slots i hi := by
    rw [hslots i hi]
    exact h.slots i hi
  header f hf := by
    have hfirst := hslots 0 h.pages_pos
    rw [Nat.add_zero] at hfirst
    rw [hfirst] at hf
    rw [hheader f hf, h.header f hf]

end Placed

end Block

/-- Every slot of the heap is part of a block, was part of one, or is lost: mapped by a `kmalloc`
that failed later. -/
structure HeapSystem.Sound (s : HeapSystem) (used : Nat) (lost : Finset Nat) : Prop where
  room : used < 2 ^ 34
  allocated : s.allocated = used * pageSize
  arena : Arena s.heap.machine (used + lost.card)
  current : s.heap.current = slotAddr (used + lost.card)
  behind : ∀ k ∈ lost, k < used + lost.card ∧ (slot s.heap.machine k).isSome = true
  placed : ∀ b ∈ s.blocks, b.Placed s.heap.machine (used + lost.card)
  apart : s.blocks.Pairwise Block.Apart
  kept : ∀ b ∈ s.blocks, ∀ k ∈ lost, k < b.first ∨ b.first + b.pages ≤ k

namespace HeapSystem.Sound

variable {s : HeapSystem} {used : Nat} {lost : Finset Nat}

section

variable (h : s.Sound used lost)

include h

private theorem count_le : used + lost.card ≤ 2 ^ 34 + 2 ^ 23 := by
  have hcard := h.arena.card_le h.behind
  have hsmall := h.arena.small
  have hroom := h.room
  omega

private theorem placed_keeps (hkeeps : KeepsSlots s.heap.machine m' (used + lost.card))
    {count' : Nat} (hcount : used + lost.card ≤ count') : ∀ b ∈ s.blocks, b.Placed m' count' := by
  intro b hb
  have hplaced := h.placed b hb
  have hinside := hplaced.inside
  have hpos := hplaced.pages_pos
  apply hplaced.keeps hcount
  · intro i hi
    exact (hkeeps _ (by omega)).1
  · intro f hf
    rw [(hkeeps b.first (by omega)).2 f hf]

private theorem lose {j : Nat} (harena : Arena m' (used + lost.card + j))
    (hkeeps : KeepsSlots s.heap.machine m' (used + lost.card))
    (hmapped : ∀ i < j, (slot m' (used + lost.card + i)).isSome = true) :
    ∃ lost', Sound { s with heap := ⟨m', slotAddr (used + lost.card + j)⟩ } used lost' := by
  have hfresh : Disjoint lost ((range j).image (used + lost.card + ·)) := by
    rw [disjoint_left]
    intro k hk hmem
    rw [mem_image] at hmem
    obtain ⟨i, -, rfl⟩ := hmem
    exact absurd (h.behind _ hk).1 (Nat.not_lt.mpr (Nat.le_add_right _ i))
  have hcard : used + (lost ∪ (range j).image (used + lost.card + ·)).card =
      used + lost.card + j := by
    rw [card_union_of_disjoint hfresh, card_image_of_injective _ fun _ _ =>
      Nat.add_left_cancel, card_range, Nat.add_assoc]
  refine ⟨lost ∪ (range j).image (used + lost.card + ·), h.room, h.allocated,
    ?_, ?_, ?_, ?_, h.apart, ?_⟩
  · rw [hcard]
    exact harena
  · rw [hcard]
  · rw [hcard]
    intro k hk
    rw [mem_union, mem_image] at hk
    rcases hk with hk | ⟨i, hi, rfl⟩
    · obtain ⟨hlt, hsome⟩ := h.behind k hk
      exact ⟨Nat.lt_add_right j hlt, by rw [(hkeeps k hlt).1]; exact hsome⟩
    · rw [mem_range] at hi
      exact ⟨Nat.add_lt_add_left hi _, hmapped i hi⟩
  · rw [hcard]
    exact h.placed_keeps hkeeps (Nat.le_add_right _ j)
  · intro b hb k hk
    rw [mem_union, mem_image] at hk
    rcases hk with hk | ⟨i, -, rfl⟩
    · exact h.kept b hb k hk
    · right
      exact Nat.le_trans (h.placed b hb).inside (Nat.le_add_right _ i)

private theorem push {size : Nat} (hsize : size < 2 ^ 48)
    (harena : Arena m' (used + lost.card + pagesFor size))
    (hkeeps : KeepsSlots s.heap.machine m' (used + lost.card))
    (hmapped : ∀ i < pagesFor size, (slot m' (used + lost.card + i)).isSome = true)
    (hheader : ∀ f, slot m' (used + lost.card) = some f → m'.mem f 1 = pagesFor size)
    (hroom : used + pagesFor size < 2 ^ 34) :
    Sound ⟨⟨m', slotAddr (used + lost.card + pagesFor size)⟩,
      Block.behind m' (slotAddr (used + lost.card) + headerSize) size :: s.blocks,
      s.allocated + pagesFor size * pageSize⟩ (used + pagesFor size) lost := by
  have hcount : used + pagesFor size + lost.card = used + lost.card + pagesFor size :=
    Nat.add_right_comm _ _ _
  have hle := h.arena.card_le h.behind
  have hsmall := h.arena.small
  generalize hb : Block.behind m' (slotAddr (used + lost.card) + headerSize) size = b
  have hfirst : b.first = used + lost.card := by
    rw [← hb, Block.first, Block.start, Block.behind]
    rw [Nat.add_sub_cancel, slotAddr, Nat.add_sub_cancel_left, Nat.mul_div_cancel_left _ (by decide)]
  have hpages : b.pages = pagesFor size := by
    rw [← hb]
    rfl
  have hplaced : b.Placed m' (used + lost.card + pagesFor size) := by
    refine ⟨by rw [hfirst, ← hb]; rfl, by rw [← hb]; exact hsize, by rw [hfirst, hpages], ?_, ?_, ?_⟩
    · rw [hpages, ← hb]
      simp [Block.behind]
    · intro i hi
      rw [hpages] at hi
      obtain ⟨f, hf⟩ := Option.isSome_iff_exists.mp (hmapped i hi)
      obtain ⟨page, rfl, -⟩ := harena.backing _ (by omega) f hf
      refine ⟨page, ?_, by rw [hfirst, hf]⟩
      have htranslate := (harena.translate_slot (i := 0)
        (by unfold slotCount; omega) (by decide) hf).2
      have haddr : slotAddr (used + lost.card) + headerSize - headerSize + i * pageSize =
          slotAddr (used + lost.card + i) + 0 := by
        unfold slotAddr pageSize
        omega
      rw [← hb, Block.behind]
      rw [List.getElem?_map, List.getElem?_range hi, Option.map_some, haddr, htranslate,
        Nat.mul_div_cancel _ (by decide)]
    · rw [hfirst, hpages]
      exact hheader
  refine ⟨hroom, by rw [h.allocated, Nat.add_mul], ?_, ?_, ?_, ?_, ?_, ?_⟩
  · rw [hcount]
    exact harena
  · rw [hcount]
  · rw [hcount]
    intro k hk
    obtain ⟨hlt, hsome⟩ := h.behind k hk
    exact ⟨Nat.lt_add_right _ hlt, by rw [(hkeeps k hlt).1]; exact hsome⟩
  · rw [hcount]
    intro c hc
    rcases List.mem_cons.mp hc with rfl | hc
    · exact hplaced
    · exact h.placed_keeps hkeeps (Nat.le_add_right _ _) c hc
  · rw [List.pairwise_cons]
    refine ⟨?_, h.apart⟩
    intro c hc
    right
    rw [hfirst]
    exact (h.placed c hc).inside
  · intro c hc k hk
    rcases List.mem_cons.mp hc with rfl | hc
    · left
      rw [hfirst]
      exact (h.behind k hk).1
    · exact h.kept c hc k hk

private theorem malloc {size bytes : Nat} (hsize : size < 2 ^ 48) (hbytes : bytes ≤ 2 ^ 46)
    (hlt : (s.malloc size).allocated < bytes) :
    ∃ used' lost', (s.malloc size).Sound used' lost' := by
  have hroom := h.room
  obtain ⟨j, m', harena, hkeeps, hmapped, hcases⟩ :=
    h.arena.kmalloc_cases rfl (by unfold slotCount; omega) h.behind hsize
  have hheap : s.heap = ⟨s.heap.machine, slotAddr (used + lost.card)⟩ := by
    rw [← h.current]
  rw [← hheap] at hcases
  rw [HeapSystem.malloc] at hlt ⊢
  rcases hcases with heq | ⟨heq, rfl, hheader⟩
  · rw [heq]
    obtain ⟨lost', hsound⟩ := h.lose harena hkeeps hmapped
    exact ⟨used, lost', hsound⟩
  · rw [heq] at hlt ⊢
    have hne : slotAddr (used + lost.card) + headerSize ≠ 0 := Nat.succ_ne_zero _
    dsimp only at hlt ⊢
    rw [if_neg hne] at hlt ⊢
    refine ⟨_, _, h.push hsize harena hkeeps hmapped hheader ?_⟩
    dsimp only at hlt
    rw [h.allocated] at hlt
    unfold pageSize at hlt
    omega

private theorem kfree_spec (hb : b ∈ s.blocks) :
    ∃ m', kfree b.ptr s.heap = ⟨m', s.heap.current⟩ ∧ Arena m' (used + lost.card) ∧
      freeSet m'.pmm = freeSet s.heap.machine.pmm ∪ b.frames.toFinset ∧
      (∀ j < used + lost.card, slot m' j =
        if b.first ≤ j ∧ j < b.first + b.pages then none else slot s.heap.machine j) ∧
      ∀ j < used + lost.card, ¬ (b.first ≤ j ∧ j < b.first + b.pages) →
        ∀ f, slot s.heap.machine j = some f → m'.mem f = s.heap.machine.mem f := by
  have hplaced := h.placed b hb
  have hle := h.count_le
  have hinside := hplaced.inside
  have hpos := hplaced.pages_pos
  obtain ⟨page, -, hslot⟩ := hplaced.slots 0 hpos
  rw [Nat.add_zero] at hslot
  have hload := h.arena.load_header (by unfold slotCount; omega) hslot
  rw [hplaced.header _ hslot] at hload
  have hstart : (b.ptr + (2 ^ 64 - headerSize)) % 2 ^ 64 = slotAddr b.first := by
    rw [hplaced.ptr]
    unfold slotAddr heapStart headerSize pageSize
    omega
  have hne : b.ptr ≠ 0 := by
    rw [hplaced.ptr]
    exact Nat.succ_ne_zero _
  obtain ⟨m', hfold, harena, hfree, hslots, hwords⟩ := h.arena.releasePages
    (by unfold slotCount; omega) hinside hplaced.slots
  rw [List.take_of_length_le hplaced.length.le] at hfree
  refine ⟨m', ?_, harena, hfree, hslots, hwords⟩
  rw [kfree, if_neg hne]
  dsimp only
  rw [hstart, hload, hfold]

private theorem free (hb : b ∈ s.blocks) : (s.free b).Sound used lost := by
  obtain ⟨m', heq, harena, -, hslots, hwords⟩ := h.kfree_spec hb
  have hperm := (List.perm_cons_erase hb).pairwise_iff (R := Block.Apart) fun h => h.symm
  obtain ⟨hapart, hrest⟩ := List.pairwise_cons.mp (hperm.mp h.apart)
  rw [HeapSystem.free, heq]
  refine ⟨h.room, h.allocated, harena, h.current, ?_, ?_, hrest, ?_⟩
  · intro k hk
    obtain ⟨hlt, hsome⟩ := h.behind k hk
    refine ⟨hlt, ?_⟩
    have hout := h.kept b hb k hk
    rw [hslots k hlt, if_neg (by omega)]
    exact hsome
  · intro c hc
    have hplaced := h.placed c (List.mem_of_mem_erase hc)
    have hinside := hplaced.inside
    have hpos := hplaced.pages_pos
    have hout := hapart c hc
    unfold Block.Apart at hout
    apply hplaced.keeps le_rfl
    · intro i hi
      rw [hslots _ (by omega), if_neg (by omega)]
    · intro f hf
      rw [hwords c.first (by omega) (by omega) f hf]
  · intro c hc
    exact h.kept c (List.mem_of_mem_erase hc)

private theorem touch {mem : Nat → Fin 512 → Nat}
    (htables : SameTables s.heap.machine { s.heap.machine with mem := mem })
    (hheaders : ∀ b ∈ s.blocks, (s.touch mem).heap.machine.load (b.start + 8) =
      s.heap.machine.load (b.start + 8)) : (s.touch mem).Sound used lost := by
  obtain ⟨harena, hslots⟩ := h.arena.touch htables rfl
  have hle := h.count_le
  refine ⟨h.room, h.allocated, harena, h.current, ?_, ?_, h.apart, h.kept⟩
  · intro k hk
    refine ⟨(h.behind k hk).1, ?_⟩
    change (slot { s.heap.machine with mem := mem } k).isSome = true
    rw [hslots]
    exact (h.behind k hk).2
  · intro b hb
    have hplaced := h.placed b hb
    have hinside := hplaced.inside
    apply hplaced.keeps le_rfl
    · intro i hi
      exact hslots _
    · intro f hf
      have hheader := hheaders b hb
      have hcount : b.first < slotCount := by
        unfold slotCount
        omega
      rw [hplaced.start_eq, h.arena.load_header hcount hf] at hheader
      rw [← hheader]
      exact (harena.load_header hcount ((hslots _).trans hf)).symm

end

end HeapSystem.Sound

private theorem HeapSystem.Reachable.sound {bytes : Nat} (hbytes : bytes ≤ 2 ^ 46) {s : HeapSystem}
    (h : s.Reachable bytes) : ∃ used lost, s.Sound used lost := by
  induction h with
  | start howned hsmall hlarge =>
    exact ⟨0, ∅, by decide, rfl, ⟨howned, hsmall, hlarge, nofun, nofun⟩, rfl, nofun, nofun,
      List.Pairwise.nil, nofun⟩
  | malloc _ hsize hlt ih =>
    obtain ⟨used, lost, hsound⟩ := ih
    exact hsound.malloc hsize hbytes hlt
  | free _ hb ih =>
    obtain ⟨used, lost, hsound⟩ := ih
    exact ⟨used, lost, hsound.free hb⟩
  | touch _ htables hheaders ih =>
    obtain ⟨used, lost, hsound⟩ := ih
    exact ⟨used, lost, hsound.touch htables hheaders⟩

namespace HeapSystem.Sound

variable {s : HeapSystem} {used : Nat} {lost : Finset Nat}

section

variable (h : s.Sound used lost)

include h

section

variable (hb : b ∈ s.blocks)

include hb

private theorem addresses_apart (hc : c ∈ s.blocks) (hapart : b.Apart c) :
    b.ptr + b.size ≤ c.start ∨ c.ptr + c.size ≤ b.start := by
  have hbound (b c : Block) (hb : b ∈ s.blocks) (hc : c ∈ s.blocks)
      (hle : b.first + b.pages ≤ c.first) : b.ptr + b.size ≤ c.start := by
    have hfits : b.size + headerSize ≤ b.pages * pageSize := le_pagesFor (h.placed b hb).size
    have hmul := Nat.mul_le_mul_right pageSize hle
    rw [Nat.add_mul] at hmul
    rw [(h.placed b hb).ptr, (h.placed c hc).start_eq, slotAddr, slotAddr, Nat.mul_comm pageSize,
      Nat.mul_comm pageSize]
    omega
  rcases hapart with hle | hle
  · exact .inl (hbound b c hb hc hle)
  · exact .inr (hbound c b hc hb hle)

private theorem end_le : b.ptr + b.size ≤ 2 ^ 64 := by
  have hplaced := h.placed b hb
  have hinside := hplaced.inside
  have hle := h.count_le
  have hfits : b.size + headerSize ≤ b.pages * pageSize := le_pagesFor hplaced.size
  rw [hplaced.ptr]
  unfold headerSize pageSize at hfits
  unfold slotAddr heapStart headerSize pageSize
  omega

private theorem slot_of_mem {i page : Nat} (hpage : b.frames[i]? = some page) :
    i < b.pages ∧ b.first + i < used + lost.card ∧
      slot s.heap.machine (b.first + i) = some (page * pageSize) := by
  have hplaced := h.placed b hb
  have hinside := hplaced.inside
  have hi : i < b.pages := by
    rw [← hplaced.length]
    exact (List.getElem?_eq_some_iff.mp hpage).1
  obtain ⟨other, hother, hslot⟩ := hplaced.slots i hi
  rw [hpage] at hother
  cases hother
  exact ⟨hi, by omega, hslot⟩

private theorem frames_disjoint (hc : c ∈ s.blocks) (hapart : b.Apart c) :
    List.Disjoint b.frames c.frames := by
  intro page hpage hpage'
  obtain ⟨i, hi⟩ := List.mem_iff_getElem?.mp hpage
  obtain ⟨j, hj⟩ := List.mem_iff_getElem?.mp hpage'
  obtain ⟨hilt, hicount, hislot⟩ := h.slot_of_mem hb hi
  obtain ⟨hjlt, hjcount, hjslot⟩ := h.slot_of_mem hc hj
  have heq := h.arena.apart _ hicount _ hjcount _ hislot hjslot
  unfold Block.Apart at hapart
  omega

private theorem frames_nodup : b.frames.Nodup := by
  rw [List.nodup_iff_getElem?_ne_getElem?]
  intro i j hij hj heq
  have hjget := List.getElem?_eq_getElem hj
  obtain ⟨-, hicount, hislot⟩ := h.slot_of_mem hb (heq.trans hjget)
  obtain ⟨-, hjcount, hjslot⟩ := h.slot_of_mem hb hjget
  have hsame := h.arena.apart _ hicount _ hjcount _ hislot hjslot
  omega

private theorem frames_not_free {page : Nat} (hpage : page ∈ b.frames) :
    page ∉ freeSet s.heap.machine.pmm := by
  obtain ⟨i, hi⟩ := List.mem_iff_getElem?.mp hpage
  obtain ⟨-, hcount, hslot⟩ := h.slot_of_mem hb hi
  obtain ⟨_, heq, -, -, hfree, -⟩ := h.arena.backing _ hcount _ hslot
  rwa [Nat.eq_of_mul_eq_mul_right (by decide) heq]

private theorem byte_mapped {i : Nat} (hi : i < headerSize + b.size) :
    ∃ page, b.frames[i / pageSize]? = some page ∧
      mapped (b.start + i) s.heap.machine = some (page * pageSize) ∧
      translate (b.start + i) s.heap.machine = page * pageSize := by
  have hplaced := h.placed b hb
  have hinside := hplaced.inside
  have hle := h.count_le
  have hfits : b.size + headerSize ≤ b.pages * pageSize := le_pagesFor hplaced.size
  have hlt : i / pageSize < b.pages := by
    apply Nat.div_lt_of_lt_mul
    rw [Nat.mul_comm]
    omega
  obtain ⟨page, hpage, hslot⟩ := hplaced.slots _ hlt
  have haddr : b.start + i = slotAddr (b.first + i / pageSize) + i % pageSize := by
    rw [hplaced.start_eq, slotAddr, slotAddr, Nat.mul_add, Nat.add_assoc _ _ (i % pageSize)]
    have hdiv := Nat.div_add_mod i pageSize
    omega
  refine ⟨page, hpage, ?_⟩
  rw [haddr]
  exact h.arena.translate_slot (by unfold slotCount; omega) (Nat.mod_lt _ (by decide)) hslot

end

end

end HeapSystem.Sound

/-- In every state of a heap that has allocated less than 2 ^ 46 bytes: live blocks with their
headers are apart, in addresses and in frames; every byte of them is mapped to the frame it got from
`kmalloc`; and `kfree` returns the frames of a block, each once, none of them free before. -/
theorem heap_blocks_separate {bytes : Nat} (hbytes : bytes ≤ 2 ^ 46) {s : HeapSystem}
    (hs : s.Reachable bytes) :
    (s.blocks.Pairwise fun b c =>
      (b.ptr + b.size ≤ c.start ∨ c.ptr + c.size ≤ b.start) ∧ List.Disjoint b.frames c.frames) ∧
    (∀ b ∈ s.blocks, ∀ i < headerSize + b.size, ∃ page, b.frames[i / pageSize]? = some page ∧
      mapped (b.start + i) s.heap.machine = some (page * pageSize) ∧
      translate (b.start + i) s.heap.machine = page * pageSize) ∧
    ∀ b ∈ s.blocks, b.ptr + b.size ≤ 2 ^ 64 ∧ b.frames.Nodup ∧
      (∀ page ∈ b.frames, page ∉ freeSet s.heap.machine.pmm) ∧
      freeSet (kfree b.ptr s.heap).machine.pmm =
        freeSet s.heap.machine.pmm ∪ b.frames.toFinset := by
  obtain ⟨used, lost, hsound⟩ := hs.sound hbytes
  refine ⟨?_, fun b hb i hi => hsound.byte_mapped hb hi, ?_⟩
  · apply hsound.apart.imp_of_mem
    intro b c hb hc hapart
    exact ⟨hsound.addresses_apart hb hc hapart, hsound.frames_disjoint hb hc hapart⟩
  · intro b hb
    refine ⟨hsound.end_le hb, hsound.frames_nodup hb,
      fun page hpage => hsound.frames_not_free hb hpage, ?_⟩
    obtain ⟨m', heq, -, hfree, -⟩ := hsound.kfree_spec hb
    rw [heq]
    exact hfree

/-- A manager of 262 pages; the six from 1 MiB on are free. -/
def sixPages : Pmm := ⟨⟨fun i => if i = 32 then 0xC0 else 0xFF⟩, 262, 256, 6⟩

/-- A heap without blocks. -/
@[irreducible] def emptyHeap : HeapSystem := ⟨⟨⟨sixPages, fun _ _ => 0, 0x1000⟩, heapStart⟩, [], 0⟩

private theorem emptyHeap_reachable : emptyHeap.Reachable (2 ^ 40) := by
  unfold emptyHeap
  apply HeapSystem.Reachable.start
  case howned =>
    apply tablesOwned_zeros (fun _ _ => rfl)
    · intro hmem
      exact absurd (mem_freeSet.mp hmem).2 (by decide)
    · decide
  case hsmall => decide
  case hlarge =>
    intro k hk
    exact largeFree_zeros (fun _ _ => rfl) _

/-- Two blocks of one page, and a call that fails after one page. -/
def blockHeap : HeapSystem := ((emptyHeap.malloc 100).malloc 100).malloc 5000

private theorem blockHeap_reachable : blockHeap.Reachable (2 ^ 40) := by
  exact ((emptyHeap_reachable.malloc (by decide) (by decide +kernel)).malloc (by decide)
    (by decide +kernel)).malloc (by decide) (by decide +kernel)

/-- The two blocks have frames of their own, the page of the failed call stays mapped, and `kfree`
returns the frame of its block only. -/
theorem heap_blocks_separate_blockHeap :
    blockHeap.Reachable (2 ^ 40) ∧
      blockHeap.blocks = [⟨heapStart + 4112, 100, [260]⟩, ⟨heapStart + 16, 100, [256]⟩] ∧
      (blockHeap.blocks.Pairwise fun b c =>
        (b.ptr + b.size ≤ c.start ∨ c.ptr + c.size ≤ b.start) ∧
          List.Disjoint b.frames c.frames) ∧
      freeSet blockHeap.heap.machine.pmm = ∅ ∧
      mapped (slotAddr 2) blockHeap.heap.machine = some (261 * pageSize) ∧
      freeSet (kfree (heapStart + 16) blockHeap.heap).machine.pmm = {256} := by
  have hblocks : blockHeap.blocks =
      [⟨heapStart + 4112, 100, [260]⟩, ⟨heapStart + 16, 100, [256]⟩] := by
    decide +kernel
  have hfree : freeSet blockHeap.heap.machine.pmm = ∅ := by decide +kernel
  have hmapped : mapped (slotAddr 2) blockHeap.heap.machine = some (261 * pageSize) := by
    decide +kernel
  obtain ⟨hapart, -, hblock⟩ := heap_blocks_separate (by decide) blockHeap_reachable
  obtain ⟨-, -, -, hkfree⟩ := hblock ⟨heapStart + 16, 100, [256]⟩ (by rw [hblocks]; simp)
  refine ⟨blockHeap_reachable, hblocks, hapart, hfree, hmapped, hkfree.trans ?_⟩
  rw [hfree, empty_union]
  rfl

end NasuaOS.Memory
