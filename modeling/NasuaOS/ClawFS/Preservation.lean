import NasuaOS.ClawFS.Ownership

/-!
# What one operation does to the tree

On a sound state an operation whose paths stay in directories changes nothing, puts one entry
or drops one. This module says which, for each operation, and derives that the ownership
invariant survives. `src/kernel_64bit/src/system/filesystem/clawfs/clawfs.cpp:385–968`.
-/

namespace NasuaOS.ClawFS

open Base Libc Finset

section Edits

variable {m m' m'' : Machine} {dirs : Nat → Prop} {depth : Nat → Nat} {d i : Nat}

/-- A walk through directories ends in a directory, as deep as the walk is long. -/
theorem Sound.lookupTokens_dir (h : Sound m dirs depth) (tokens : List Bytes) (hd : dirs d)
    (ht : ThroughDirs m.disk d tokens) (hz : lookupTokens m.disk d tokens ≠ 0) :
    dirs (lookupTokens m.disk d tokens) ∧
      depth (lookupTokens m.disk d tokens) = depth d + tokens.length := by
  induction tokens generalizing d with
  | nil => exact ⟨hd, rfl⟩
  | cons token rest ih =>
    rw [lookupTokens] at hz ⊢
    cases hf : findEntry (m.disk d) token with
    | none =>
      rw [hf] at hz
      exact absurd rfl hz
    | some e =>
      rw [hf] at hz
      obtain ⟨j, -, hl, -, rfl, -⟩ := findEntry_some hf
      obtain ⟨hte, htr⟩ := ht _ hf
      obtain ⟨hc, hdep⟩ := h.children d j hd hl hte
      obtain ⟨hr, hrd⟩ := ih hc htr hz
      refine ⟨hr, ?_⟩
      simp only [hrd, hdep, List.length_cons]
      omega

/-- The parent path of an operation leads to a directory of the tree. -/
theorem Sound.lookupPath_dir (h : Sound m dirs depth) {path : Bytes}
    (hp : DirPath m.disk path) (hz : lookupPath m.disk path ≠ 0) : dirs (lookupPath m.disk path) ∧
      depth (lookupPath m.disk path) = (pathTokens path).length := by
  have hw := h.lookupTokens_dir (pathTokens path) h.root hp.2 hz
  rw [h.rootDepth, Nat.zero_add] at hw
  exact hw

variable {disk : Disk} {s next : Nat} {data : Bytes}

/-- A walk sees only the directories on its way. -/
theorem Sound.lookupTokens_congr (h : Sound m dirs depth) {n : Nat}
    (hsame : ∀ x, dirs x → depth x < n → disk x = m.disk x) (tokens : List Bytes) {x : Nat}
    (hx : dirs x) (ht : ThroughDirs m.disk x tokens) (hn : depth x + tokens.length ≤ n) :
    lookupTokens disk x tokens = lookupTokens m.disk x tokens := by
  induction tokens generalizing x with
  | nil => rfl
  | cons token rest ih =>
    rw [List.length_cons] at hn
    rw [lookupTokens, lookupTokens, hsame x hx (by omega)]
    cases hf : findEntry (m.disk x) token with
    | none => rfl
    | some e =>
      obtain ⟨j, -, hl, -, rfl, -⟩ := findEntry_some hf
      obtain ⟨hte, htr⟩ := ht _ hf
      obtain ⟨hc, hcd⟩ := h.children x j hx hl hte
      exact ih hc htr (by omega)

/-- A walk still leads to a directory when no other directory changed: those on the way lie above
it. -/
theorem Sound.lookupTokens_eq (h : Sound m dirs depth)
    (hothers : ∀ x, dirs x → x ≠ d → disk x = m.disk x) {tokens : List Bytes}
    (ht : ThroughDirs m.disk clawfsRootSector tokens)
    (hd : lookupTokens m.disk clawfsRootSector tokens = d) (hz : d ≠ 0) :
    lookupTokens disk clawfsRootSector tokens = d := by
  obtain ⟨-, hdepth⟩ := h.lookupTokens_dir tokens h.root ht (by rw [hd]; exact hz)
  rw [h.lookupTokens_congr (n := depth d) ?_ tokens h.root ht (by rw [← hd, hdepth]), hd]
  intro x hx hlow
  apply hothers x hx
  rintro rfl
  exact Nat.lt_irrefl _ hlow

/-- The invariant looks at the directories and the allocator only. -/
theorem Sound.congr (h : Sound m dirs depth) (hm : Mounted m')
    (hdirs : ∀ x, dirs x → m'.disk x = m.disk x) (hgrows : m.nextFreeSector ≤ m'.nextFreeSector)
    (hhigh : m'.nextFreeSector < 2 ^ 32) : Sound m' dirs depth := by
  have hlive (x j : Nat) (hx : dirs x) : Live m'.disk x j ↔ Live m.disk x j := by
    rw [Live, hdirs x hx, Live]
  refine ⟨hm, Nat.le_trans h.low hgrows, hhigh, h.root, h.rootDepth, ?_, ?_, ?_, ?_⟩
  · intro x j hx hl
    have hok := h.entries x j hx ((hlive x j hx).mp hl)
    rw [hdirs x hx]
    exact ⟨hok.terminated, hok.type, hok.lower, Nat.le_trans hok.upper hgrows, hok.size⟩
  · intro x j hx hl
    rw [hdirs x hx]
    exact h.children x j hx ((hlive x j hx).mp hl)
  · intro x hx
    rcases h.parents x hx with hr | ⟨p, j, hp, hl, hrest⟩
    · exact .inl hr
    · refine .inr ⟨p, j, hp, (hlive p j hp).mpr hl, ?_⟩
      rw [hdirs p hp]
      exact hrest
  · intro x j x' j' hx hl hx' hl'
    rw [hdirs x hx, hdirs x' hx']
    exact h.apart x j x' j' hx ((hlive x j hx).mp hl) hx' ((hlive x' j' hx').mp hl')

private theorem Edit.trans (h1 : Edit m m' dirs d i) (h2 : Edit m' m'' dirs d i) :
    Edit m m'' dirs d i where
  dir := h1.dir
  slot := h1.slot
  mounted := h2.mounted
  others := by
    intro x hx hne
    rw [h2.others x hx hne, h1.others x hx hne]
  slots := by
    intro j hj hne k hk
    rw [h1.slots j hj hne k hk, h2.slots j hj hne k hk]
  contents := by
    intro x j hx hl hne ht s hs
    have hsame := h1.entryAt_eq hx hl.1 hne
    rw [h2.contents x j hx ((h1.live_iff hx hne).mpr hl) hne (hsame ▸ ht) s (hsame ▸ hs),
      h1.contents x j hx hl hne ht s hs]
  grows := Nat.le_trans h1.grows h2.grows
  high := h2.high

/-- Putting twice into one slot is putting once. -/
theorem Put.trans (h1 : Put m m' dirs d i) (h2 : Put m' m'' dirs d i) : Put m m'' dirs d i where
  edit := h1.edit.trans h2.edit
  used := h2.used
  ok := h2.ok
  old := h1.old
  apart := by
    intro x j hx hl hne
    have ha := h2.apart x j hx ((h1.live_iff hx hne).mpr hl) hne
    rw [h1.entryAt_eq hx hl.1 hne] at ha
    exact ha
  empty := h2.empty

/-- A state with the header in place and the allocator in memory is mounted again. -/
theorem Mounted.rewrite (h : Mounted m) (next : Nat)
    (hd : disk clawfsStartLba = m.disk clawfsStartLba) :
    Mounted { m with disk := disk, nextFreeSector := next } where
  header := by
    rw [← h.header, ← hd]
  initialized := h.initialized
  faultless := h.faultless

section

variable (h : Sound m dirs depth)

include h

private theorem Sound.header_ne_dir (hd : dirs d) : clawfsStartLba ≠ d := by
  have hb := (h.dir_bounds hd).1
  simp only [clawfsStartLba, clawfsRootSector] at *
  omega

/-- The header lies below the allocator. -/
theorem Sound.header_lt_next : clawfsStartLba < m.nextFreeSector :=
  Nat.lt_of_lt_of_le (by decide) h.low

/-- Sectors of an entry lie above the root and below the allocator. -/
theorem Sound.owned_bounds (hd : dirs d) (hl : Live m.disk d i)
    (hs : s ∈ owned (entryAt (m.disk d) i)) : firstDataSector ≤ s ∧ s < m.nextFreeSector := by
  have hok := h.entries d i hd hl
  have hlow := hok.lower
  have hup := hok.upper
  rw [owned, mem_Ico] at hs
  omega

/-- Sectors of a file are not those of a directory. -/
theorem Sound.owned_ne_dir {x j : Nat} (hx : dirs x) (hl : Live m.disk x j)
    (ht : (entryAt (m.disk x) j).type = clawfsFile) (hs : s ∈ owned (entryAt (m.disk x) j))
    (hd : dirs d) : s ≠ d := by
  rintro rfl
  rw [owned, mem_Ico] at hs
  exact h.file_sector_not_dir hx hl ht s hs.1 hs.2 hd

private theorem Sound.addEntry_edit (hd : dirs d) (hi : i < slotCount) (name : Bytes)
    (type : Nat) (hn : name.length < 28) (hnext : m.nextFreeSector + 1 < 2 ^ 32) :
    Edit m (addEntry m d i name type) dirs d i where
  dir := hd
  slot := hi
  mounted := by
    apply h.mounted.rewrite
    rw [writeDisk_of_ne _ _ _ _ (h.header_ne_dir hd),
      writeDisk_of_ne _ _ _ _ (Nat.ne_of_lt h.header_lt_next)]
  others := by
    intro x hx hne
    simp only [addEntry]
    rw [writeDisk_of_ne _ _ _ _ hne, writeDisk_of_ne _ _ _ _ (Nat.ne_of_lt (h.dir_bounds hx).2)]
  slots := by
    intro j hj hne k hk
    simp only [addEntry, writeDisk_same]
    exact (sameSlot_fillSlot _ i j name type _ hj (Ne.symm hne) (.inr hn) k hk).symm
  contents := by
    intro x j hx hl _ ht s hs
    simp only [addEntry]
    rw [writeDisk_of_ne _ _ _ _ (h.owned_ne_dir hx hl ht hs hd),
      writeDisk_of_ne _ _ _ _ (Nat.ne_of_lt (h.owned_bounds hx hl hs).2)]
  grows := by
    simp only [addEntry, Nat.mod_eq_of_lt hnext]
    exact Nat.le_succ _
  high := Nat.mod_lt _ (by decide)

end

/-- The entry that adding makes. -/
theorem entryAt_addEntry (hi : i < slotCount) (name : Bytes) {type : Nat}
    (ht : type < 2 ^ 32) (hs : m.nextFreeSector < 2 ^ 32) :
    entryAt ((addEntry m d i name type).disk d) i = ⟨type, m.nextFreeSector, 0⟩ := by
  simp only [addEntry, writeDisk_same]
  exact entryAt_fillSlot _ i name type _ hi ht hs

/-- Adding an entry to a free slot puts it. -/
theorem Sound.addEntry_put (h : Sound m dirs depth) (hd : dirs d)
    (hfree : freeSlot (m.disk d) = some i) (name : Bytes) {type : Nat} (hn : name.length < 28)
    (hne : name ≠ []) (h0 : (0 : UInt8) ∉ name) (ht : type = clawfsFile ∨ type = clawfsDirectory)
    (hnext : m.nextFreeSector + 1 < 2 ^ 32) : Put m (addEntry m d i name type) dirs d i := by
  obtain ⟨hi, hu⟩ := firstSlot_some hfree
  have htype : type < 2 ^ 32 := by
    rcases ht with rfl | rfl
    · decide
    · decide
  have hentry := entryAt_addEntry (d := d) hi name htype h.high
  have hcount : ownedCount ⟨type, m.nextFreeSector, 0⟩ = 1 := by
    rcases ht with rfl | rfl
    · exact ownedCount_file rfl
    · exact ownedCount_directory rfl
  refine ⟨h.addEntry_edit hd hi name type hn hnext, ?_, ?_, ?_, ?_, ?_⟩
  · simp only [addEntry, writeDisk_same]
    exact used_of_holds h0 hne (holds_fillSlot _ i name type _ hi hn)
  · refine ⟨?_, ?_, ?_, ?_, ?_⟩
    · simp only [addEntry, writeDisk_same]
      exact ⟨name.length, hn, (holds_fillSlot _ i name type _ hi hn).2⟩
    · rw [hentry]
      exact ht
    · rw [hentry]
      exact Nat.le_trans (by decide) h.low
    · rw [hentry, hcount]
      simp only [addEntry, Nat.mod_eq_of_lt hnext]
      exact le_rfl
    · rw [hentry]
      exact Nat.zero_le _
  · intro hl
    rw [hl.2] at hu
    cases hu
  · intro x j hx hl _
    left
    rw [hentry]
    exact (h.entries x j hx hl).upper
  · intro _ j _
    rw [hentry]
    simp only [addEntry]
    rw [writeDisk_of_ne _ _ _ _ (Nat.ne_of_gt (h.dir_bounds hd).2), writeDisk_same, used,
      Buffer.byte_zero]
    rfl

/-- The state after contents were stored and slot `i` was pointed at them. -/
def patchEntry (m : Machine) (d i target next : Nat) (data : Bytes) : Machine :=
  { m with
    disk := writeDisk (writeRange target data (sectorsFor data.length) 0 m.disk) d
      (patchSlot (m.disk d) i target data.length)
    nextFreeSector := next }

/-- Where new contents go: over the old ones, or to fresh sectors. -/
structure Target (m : Machine) (d i target next required : Nat) : Prop where
  lower : firstDataSector ≤ target
  upper : target + required ≤ next
  grows : m.nextFreeSector ≤ next
  high : next < 2 ^ 32
  inside : ∀ s, target ≤ s → s < target + required →
    m.nextFreeSector ≤ s ∨ s ∈ owned (entryAt (m.disk d) i)

/-- The sectors that a store chooses for an entry of the tree. -/
theorem Sound.target (h : Sound m dirs depth) (hd : dirs d) (hl : Live m.disk d i)
    (ht : (entryAt (m.disk d) i).type = clawfsFile) {required target : Nat}
    (hc : targetFor m.nextFreeSector (entryAt (m.disk d) i) required = some (target, next)) :
    Target m d i target next required := by
  have hok := h.entries d i hd hl
  have hup := hok.upper
  have hlow : 0 < m.nextFreeSector := Nat.lt_of_lt_of_le (by decide) h.low
  rw [targetFor, ← ownedCount_file ht] at hc
  split at hc
  · next hreq =>
    cases hc
    refine ⟨hok.lower, by omega, le_rfl, h.high, ?_⟩
    intro s h1 h2
    rw [owned, mem_Ico]
    omega
  · split at hc
    · cases hc
    · cases hc
      refine ⟨Nat.le_trans (by decide) h.low, le_rfl, by omega, by omega, ?_⟩
      intro s h1 _
      exact .inl h1

private theorem Target.keeps {target : Nat} (h : Target m d i target next (sectorsFor data.length))
    (hs : s < m.nextFreeSector) (ho : s ∉ owned (entryAt (m.disk d) i)) (hd : s ≠ d) :
    (patchEntry m d i target next data).disk s = m.disk s := by
  have hup := h.upper
  have hhigh := h.high
  simp only [patchEntry]
  rw [writeDisk_of_ne _ _ _ _ hd, writeRange_apply _ _ _ _ _ (by omega), if_neg]
  intro hr
  rcases h.inside s (by omega) (by omega) with hn | hn
  · omega
  · exact ho hn

/-- Storing contents edits one slot. -/
theorem Sound.patchEntry_edit (h : Sound m dirs depth) (hd : dirs d) (hl : Live m.disk d i)
    (ht : (entryAt (m.disk d) i).type = clawfsFile) {target : Nat}
    (hc : Target m d i target next (sectorsFor data.length)) :
    Edit m (patchEntry m d i target next data) dirs d i where
  dir := hd
  slot := hl.1
  mounted := by
    apply h.mounted.rewrite
    apply hc.keeps h.header_lt_next _ (h.header_ne_dir hd)
    intro ho
    exact absurd (h.owned_bounds hd hl ho).1 (by decide)
  others := by
    intro x hx hne
    apply hc.keeps (h.dir_bounds hx).2 _ hne
    intro ho
    exact h.owned_ne_dir hd hl ht ho hx rfl
  slots := by
    intro j hj hne k hk
    simp only [patchEntry, writeDisk_same]
    exact (sameSlot_patchSlot _ i j target _ hj (Ne.symm hne) k hk).symm
  contents := by
    intro x j hx hlx hne htx s hs
    have hother := disjoint_left.mp (h.apart x j d i hx hlx hd hl hne).disjoint hs
    exact hc.keeps (h.owned_bounds hx hlx hs).2 hother (h.owned_ne_dir hx hlx htx hs hd)
  grows := hc.grows
  high := hc.high

/-- The entry after contents were stored. -/
theorem entryAt_patchEntry (hi : i < slotCount) (ht : (entryAt (m.disk d) i).type = clawfsFile)
    {target : Nat} (hlen : data.length ≤ clawfsMaxFileSize)
    (hc : Target m d i target next (sectorsFor data.length)) :
    entryAt ((patchEntry m d i target next data).disk d) i = ⟨clawfsFile, target, data.length⟩ := by
  have hup := hc.upper
  have hhigh := hc.high
  have hmax : clawfsMaxFileSize < 2 ^ 32 := by decide
  simp only [patchEntry, writeDisk_same]
  rw [entryAt_patchSlot _ _ _ _ hi (by omega) (by omega), ht]

/-- Storing contents in a file puts the grown entry. -/
theorem Sound.patchEntry_put (h : Sound m dirs depth) (hd : dirs d) (hl : Live m.disk d i)
    (ht : (entryAt (m.disk d) i).type = clawfsFile) {target : Nat}
    (hlen : data.length ≤ clawfsMaxFileSize)
    (hc : Target m d i target next (sectorsFor data.length)) :
    Put m (patchEntry m d i target next data) dirs d i := by
  have hentry := entryAt_patchEntry hl.1 ht hlen hc
  have hcount : ownedCount ⟨clawfsFile, target, data.length⟩ = sectorsFor data.length :=
    ownedCount_file rfl
  -- The patch leaves the name bytes alone.
  have hname (k : Nat) (hk : k < 28) :
      ((patchEntry m d i target next data).disk d).byte (entrySize * i + k) =
        (m.disk d).byte (entrySize * i + k) := by
    simp only [patchEntry, writeDisk_same]
    exact byte_patchSlot_name _ i _ _ k hl.1 hk
  refine ⟨h.patchEntry_edit hd hl ht hc, ?_, ?_, ?_, ?_, ?_⟩
  · have h0 := hname 0 (by decide)
    rw [Nat.add_zero] at h0
    rw [used, h0]
    exact hl.2
  · refine ⟨?_, ?_, ?_, ?_, ?_⟩
    · obtain ⟨k, hk, hz⟩ := (h.entries d i hd hl).terminated
      exact ⟨k, hk, by rw [hname k hk, hz]⟩
    · rw [hentry]
      exact .inl rfl
    · rw [hentry]
      exact hc.lower
    · rw [hentry, hcount]
      exact hc.upper
    · rw [hentry]
      exact hlen
  · intro _ htd
    rw [ht] at htd
    exact file_ne_directory htd
  · intro x j hx hlx hne
    rw [hentry]
    have hux := (h.entries x j hx hlx).upper
    have hapart := h.apart x j d i hx hlx hd hl hne
    -- A common sector would be fresh, or belong to the old entry as well.
    by_contra hn
    simp only [Apart, hcount, not_or, Nat.not_le] at hn
    have hpos := ownedCount_pos (entryAt (m.disk x) j)
    have hposd : 0 < sectorsFor data.length := hcount ▸ ownedCount_pos _
    have hin := hc.inside (max target (entryAt (m.disk x) j).dataSector) (by omega) (by omega)
    rw [owned, mem_Ico] at hin
    simp only [Apart] at hapart
    omega
  · intro htd
    rw [hentry] at htd
    exact absurd htd file_ne_directory

/-- Removing an entry whose directory, if it is one, is empty drops it. -/
theorem Sound.dropEntry_drop (h : Sound m dirs depth) (hd : dirs d) (hi : i < slotCount)
    (hempty : (entryAt (m.disk d) i).type = clawfsDirectory →
      emptyDirectory (m.disk (entryAt (m.disk d) i).dataSector) = true) :
    Drop m (dropEntry m d i) dirs d i := by
  refine ⟨⟨hd, hi, ?_, ?_, ?_, ?_, le_rfl, h.high⟩, ?_, ?_⟩
  · apply h.mounted.rewrite m.nextFreeSector
    exact writeDisk_of_ne _ _ _ _ (h.header_ne_dir hd)
  · intro x _ hne
    exact writeDisk_of_ne _ _ _ _ hne
  · intro j hj hne k hk
    simp only [dropEntry, writeDisk_same]
    exact (sameSlot_clearSlot _ i j hj (Ne.symm hne) k hk).symm
  · intro x j hx hl _ ht s hs
    exact writeDisk_of_ne _ _ _ _ (h.owned_ne_dir hx hl ht hs hd)
  · simp only [dropEntry, writeDisk_same]
    exact used_clearSlot _ i hi
  · intro _ ht j hj
    have hn := hempty ht
    rw [emptyDirectory, Option.isNone_iff_eq_none] at hn
    exact firstSlot_none hn j hj

end Edits

end NasuaOS.ClawFS
