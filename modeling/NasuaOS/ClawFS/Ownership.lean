import NasuaOS.ClawFS.Tree

/-!
# Sector ownership

The invariant of a run. Directory sectors form a set that the entries of its members close;
each entry owns a range of sectors below the allocator, and the ranges of different slots are
apart. An operation is one edit of one slot, so the invariant is proved once for an edit that
puts an entry and once for an edit that drops one.
-/

namespace NasuaOS.ClawFS

open Base Libc

/-- Two entries own no common sector. -/
def Apart (e f : CLAWFSEntry) : Prop :=
  e.dataSector + ownedCount e ≤ f.dataSector ∨ f.dataSector + ownedCount f ≤ e.dataSector

/-- First sector an entry can own. -/
def firstDataSector : Nat := 102

/-- A slot is well formed with respect to the allocator. -/
structure EntryOk (buffer : Sector) (next i : Nat) : Prop where
  terminated : Terminated buffer i
  type : (entryAt buffer i).type = clawfsFile ∨ (entryAt buffer i).type = clawfsDirectory
  lower : firstDataSector ≤ (entryAt buffer i).dataSector
  upper : (entryAt buffer i).dataSector + ownedCount (entryAt buffer i) ≤ next
  size : (entryAt buffer i).entryCount ≤ clawfsMaxFileSize

/-- The run invariant, over the directory sectors of the tree and their depths. -/
structure Sound (m : Machine) (dirs : Nat → Prop) (depth : Nat → Nat) : Prop where
  mounted : Mounted m
  low : firstFreeSector ≤ m.nextFreeSector
  high : m.nextFreeSector < 2 ^ 32
  root : dirs clawfsRootSector
  rootDepth : depth clawfsRootSector = 0
  entries : ∀ d i, dirs d → Live m.disk d i → EntryOk (m.disk d) m.nextFreeSector i
  children : ∀ d i, dirs d → Live m.disk d i →
    (entryAt (m.disk d) i).type = clawfsDirectory →
      dirs (entryAt (m.disk d) i).dataSector ∧
        depth (entryAt (m.disk d) i).dataSector = depth d + 1
  parents : ∀ d, dirs d → d = clawfsRootSector ∨
    ∃ p i, dirs p ∧ Live m.disk p i ∧ (entryAt (m.disk p) i).type = clawfsDirectory ∧
      (entryAt (m.disk p) i).dataSector = d
  apart : ∀ d i d' i', dirs d → Live m.disk d i → dirs d' → Live m.disk d' i' →
    (d, i) ≠ (d', i') → Apart (entryAt (m.disk d) i) (entryAt (m.disk d') i')

/-- Every entry owns at least one sector. -/
theorem ownedCount_pos (e : CLAWFSEntry) : 0 < ownedCount e := by
  rw [ownedCount]
  split
  · exact Nat.one_pos
  · exact Nat.lt_of_lt_of_le Nat.one_pos (Nat.le_max_left _ _)

/-- A directory owns one sector. -/
theorem ownedCount_directory {e : CLAWFSEntry} (h : e.type = clawfsDirectory) :
    ownedCount e = 1 := by
  rw [ownedCount, if_pos h]

/-- A file owns the sectors its length needs. -/
theorem ownedCount_file {e : CLAWFSEntry} (h : e.type = clawfsFile) :
    ownedCount e = sectorsFor e.entryCount := by
  rw [ownedCount, h, if_neg file_ne_directory, sectorsFor]
  split
  · next hz => rw [hz]; rfl
  · exact Nat.max_eq_right (by omega)

private theorem Apart.symm {e f : CLAWFSEntry} (h : Apart e f) : Apart f e := Or.symm h

/-- Entries that are apart own disjoint sectors. -/
theorem Apart.disjoint {e f : CLAWFSEntry} (h : Apart e f) : Disjoint (owned e) (owned f) := by
  rw [Finset.disjoint_left]
  intro s hs ht
  rw [owned, Finset.mem_Ico] at hs ht
  cases h with
  | inl h | inr h => omega

private theorem EntryOk.transport {a b : Sector} {i next next' : Nat} (h : EntryOk a next i)
    (hs : SameSlot a b i) (hn : next ≤ next') : EntryOk b next' i where
  terminated := hs.terminated h.terminated
  type := hs.entryAt_eq ▸ h.type
  lower := hs.entryAt_eq ▸ h.lower
  upper := Nat.le_trans (hs.entryAt_eq ▸ h.upper) hn
  size := hs.entryAt_eq ▸ h.size

namespace Sound

variable {m m' : Machine} {dirs : Nat → Prop} {depth : Nat → Nat} {d i : Nat}

/-- Directory sectors lie between the root and the allocator. -/
theorem dir_bounds (h : Sound m dirs depth) (hd : dirs d) :
    clawfsRootSector ≤ d ∧ d < m.nextFreeSector := by
  rcases h.parents d hd with rfl | ⟨p, i, hp, hl, -, rfl⟩
  · have := h.low
    simp only [clawfsRootSector, firstFreeSector] at *
    omega
  · have ho := h.entries p i hp hl
    have hl := ho.lower
    have hu := ho.upper
    have hc := ownedCount_pos (entryAt (m.disk p) i)
    simp only [clawfsRootSector, firstDataSector] at *
    omega

private theorem not_dir (h : Sound m dirs depth) (s : Nat) (hs : firstDataSector ≤ s)
    (hn : ∀ p j, dirs p → Live m.disk p j → (entryAt (m.disk p) j).type = clawfsDirectory →
      (entryAt (m.disk p) j).dataSector ≠ s) : ¬ dirs s := by
  intro hd
  rcases h.parents s hd with rfl | ⟨p, j, hp, hl, ht, he⟩
  · exact absurd hs (by decide)
  · exact hn p j hp hl ht he

/-- Sectors of a regular file are no directories. -/
theorem file_sector_not_dir (h : Sound m dirs depth) (hd : dirs d) (hl : Live m.disk d i)
    (ht : (entryAt (m.disk d) i).type = clawfsFile) (s : Nat)
    (hs : (entryAt (m.disk d) i).dataSector ≤ s)
    (hu : s < (entryAt (m.disk d) i).dataSector + ownedCount (entryAt (m.disk d) i)) :
    ¬ dirs s := by
  apply h.not_dir s (Nat.le_trans (h.entries d i hd hl).lower hs)
  intro p j hp hlj htj he
  have hne : (d, i) ≠ (p, j) := by
    rintro hpj
    cases hpj
    rw [ht] at htj
    exact file_ne_directory htj
  have hc := ownedCount_directory htj
  rcases h.apart d i p j hd hl hp hlj hne with ha | ha
  · omega
  · omega

end Sound

/-- One slot of one directory was edited; other directory slots are as before. -/
structure Edit (m m' : Machine) (dirs : Nat → Prop) (d i : Nat) : Prop where
  dir : dirs d
  slot : i < slotCount
  mounted : Mounted m'
  others : ∀ x, dirs x → x ≠ d → m'.disk x = m.disk x
  slots : ∀ j, j < slotCount → j ≠ i → SameSlot (m.disk d) (m'.disk d) j
  contents : ∀ x j, dirs x → Live m.disk x j → (x, j) ≠ (d, i) →
    (entryAt (m.disk x) j).type = clawfsFile →
      ∀ s ∈ owned (entryAt (m.disk x) j), m'.disk s = m.disk s
  grows : m.nextFreeSector ≤ m'.nextFreeSector
  high : m'.nextFreeSector < 2 ^ 32

namespace Edit

variable {m m' : Machine} {dirs : Nat → Prop} {depth : Nat → Nat} {d i x j : Nat}

/-- Slots other than the edited one agree. -/
theorem sameSlot (he : Edit m m' dirs d i) (hx : dirs x) (hj : j < slotCount)
    (hne : (x, j) ≠ (d, i)) : SameSlot (m.disk x) (m'.disk x) j := by
  by_cases hxd : x = d
  · subst hxd
    apply he.slots j hj
    intro hji
    exact hne (by rw [hji])
  · rw [he.others x hx hxd]
    intro k _
    rfl

/-- Slots other than the edited one are live alike and hold the same entry. -/
theorem live_iff (he : Edit m m' dirs d i) (hx : dirs x) (hne : (x, j) ≠ (d, i)) :
    Live m'.disk x j ↔ Live m.disk x j := by
  constructor
  · rintro ⟨hj, hu⟩
    exact ⟨hj, by rw [(he.sameSlot hx hj hne).used_eq]; exact hu⟩
  · rintro ⟨hj, hu⟩
    exact ⟨hj, by rw [← (he.sameSlot hx hj hne).used_eq]; exact hu⟩

/-- Slots other than the edited one hold the same entry. -/
theorem entryAt_eq (he : Edit m m' dirs d i) (hx : dirs x) (hj : j < slotCount)
    (hne : (x, j) ≠ (d, i)) : entryAt (m'.disk x) j = entryAt (m.disk x) j :=
  (he.sameSlot hx hj hne).entryAt_eq.symm

end Edit

/-- Directory sectors after an entry was put: a new directory joins. -/
def dirsWith (dirs : Nat → Prop) (e : CLAWFSEntry) : Nat → Prop :=
  fun x => dirs x ∨ e.type = clawfsDirectory ∧ x = e.dataSector

/-- Depths after an entry was put in a directory of depth `n`. -/
def depthWith (depth : Nat → Nat) (e : CLAWFSEntry) (n : Nat) : Nat → Nat :=
  fun x => if e.type = clawfsDirectory ∧ x = e.dataSector then n + 1 else depth x

/-- Directory sectors after the entry of slot `i` was dropped: its directory leaves. -/
def dirsWithout (disk : Disk) (dirs : Nat → Prop) (d i : Nat) : Nat → Prop :=
  fun x => dirs x ∧ ¬ (Live disk d i ∧ (entryAt (disk d) i).type = clawfsDirectory ∧
    x = (entryAt (disk d) i).dataSector)

section Edits

variable {m m' : Machine} {dirs : Nat → Prop} {depth : Nat → Nat} {d i : Nat}

/-- An edit that puts a well-formed entry, apart from every other one. A new directory starts
empty, and the edited slot did not name a directory. -/
structure Put (m m' : Machine) (dirs : Nat → Prop) (d i : Nat) : Prop
    extends edit : Edit m m' dirs d i where
  used : used (m'.disk d) i = true
  ok : EntryOk (m'.disk d) m'.nextFreeSector i
  old : Live m.disk d i → (entryAt (m.disk d) i).type ≠ clawfsDirectory
  apart : ∀ x j, dirs x → Live m.disk x j → (x, j) ≠ (d, i) →
    Apart (entryAt (m.disk x) j) (entryAt (m'.disk d) i)
  empty : (entryAt (m'.disk d) i).type = clawfsDirectory →
    ∀ j, j < slotCount → ClawFS.used (m'.disk (entryAt (m'.disk d) i).dataSector) j = false

/-- An edit that frees a slot; a directory it named was empty. -/
structure Drop (m m' : Machine) (dirs : Nat → Prop) (d i : Nat) : Prop
    extends edit : Edit m m' dirs d i where
  free : ClawFS.used (m'.disk d) i = false
  empty : Live m.disk d i → (entryAt (m.disk d) i).type = clawfsDirectory →
    ∀ j, j < slotCount → ClawFS.used (m.disk (entryAt (m.disk d) i).dataSector) j = false

private theorem Put.not_dir (hput : Put m m' dirs d i) (h : Sound m dirs depth) :
    ¬ dirs (entryAt (m'.disk d) i).dataSector := by
  apply h.not_dir _ hput.ok.lower
  intro p j hp hl htj heq
  have hne : (p, j) ≠ (d, i) := by
    intro hpj
    cases hpj
    exact hput.old hl htj
  have hc := ownedCount_pos (entryAt (m.disk p) j)
  have hn := ownedCount_pos (entryAt (m'.disk d) i)
  rcases hput.apart p j hp hl hne with ha | ha
  · omega
  · omega

/-- Directories that were there keep their depth. -/
theorem Put.depth_eq (hput : Put m m' dirs d i) (h : Sound m dirs depth) {x : Nat} (hx : dirs x) :
    depthWith depth (entryAt (m'.disk d) i) (depth d) x = depth x := by
  rw [depthWith, if_neg]
  rintro ⟨-, rfl⟩
  exact hput.not_dir h hx

/-- A live slot of the new state is the edited one, or an old one that is unchanged. -/
theorem Put.live_cases (hput : Put m m' dirs d i) {x j : Nat}
    (hx : dirsWith dirs (entryAt (m'.disk d) i) x) (hl : Live m'.disk x j) :
    (x = d ∧ j = i) ∨ (dirs x ∧ Live m.disk x j ∧ (x, j) ≠ (d, i)) := by
  rcases hx with hx | ⟨ht, rfl⟩
  · by_cases hne : (x, j) = (d, i)
    · left
      cases hne
      exact ⟨rfl, rfl⟩
    · exact .inr ⟨hx, (hput.live_iff hx hne).mp hl, hne⟩
  · have hf := hput.empty ht j hl.1
    rw [hl.2] at hf
    cases hf

/-- A live slot of the new state was live and is not the freed one. -/
theorem Drop.live_cases (hdrop : Drop m m' dirs d i) {x j : Nat} (hx : dirs x)
    (hl : Live m'.disk x j) : Live m.disk x j ∧ (x, j) ≠ (d, i) := by
  have hne : (x, j) ≠ (d, i) := by
    intro hxj
    cases hxj
    have hf := hdrop.free
    rw [hl.2] at hf
    cases hf
  exact ⟨(hdrop.live_iff hx hne).mp hl, hne⟩

/-- Putting an entry keeps the invariant. -/
theorem Sound.put (h : Sound m dirs depth) (hput : Put m m' dirs d i) :
    Sound m' (dirsWith dirs (entryAt (m'.disk d) i))
      (depthWith depth (entryAt (m'.disk d) i) (depth d)) := by
  have he := hput.edit
  have hold := hput.old
  have hapart := hput.apart
  have hdepth (x : Nat) (hx : dirs x) := hput.depth_eq h hx
  have hlive (x j : Nat) hx hl := hput.live_cases (x := x) (j := j) hx hl
  have hsame (x j : Nat) (hx : dirs x) (hl : Live m.disk x j) (hne : (x, j) ≠ (d, i)) :
      entryAt (m'.disk x) j = entryAt (m.disk x) j := he.entryAt_eq hx hl.1 hne
  refine ⟨he.mounted, Nat.le_trans h.low he.grows, he.high, .inl h.root, ?_, ?_, ?_, ?_, ?_⟩
  · rw [hdepth _ h.root, h.rootDepth]
  · intro x j hx hl
    rcases hlive x j hx hl with ⟨rfl, rfl⟩ | ⟨hx, hl, hne⟩
    · exact hput.ok
    · exact (h.entries x j hx hl).transport (he.sameSlot hx hl.1 hne) he.grows
  · intro x j hx hl ht
    rcases hlive x j hx hl with ⟨rfl, rfl⟩ | ⟨hx, hl, hne⟩
    · refine ⟨.inr ⟨ht, rfl⟩, ?_⟩
      rw [hdepth x he.dir, depthWith, if_pos ⟨ht, rfl⟩]
    · rw [hsame x j hx hl hne] at ht ⊢
      obtain ⟨hc, hdep⟩ := h.children x j hx hl ht
      exact ⟨.inl hc, by rw [hdepth _ hc, hdepth _ hx, hdep]⟩
  · intro x hx
    rcases hx with hx | ⟨ht, rfl⟩
    · rcases h.parents x hx with hr | ⟨p, j, hp, hl, ht, hs⟩
      · exact .inl hr
      · have hne : (p, j) ≠ (d, i) := by
          intro hpj
          cases hpj
          exact hold hl ht
        refine .inr ⟨p, j, .inl hp, (he.live_iff hp hne).mpr hl, ?_, ?_⟩
        · rw [hsame p j hp hl hne]; exact ht
        · rw [hsame p j hp hl hne]; exact hs
    · exact .inr ⟨d, i, .inl he.dir, ⟨he.slot, hput.used⟩, ht, rfl⟩
  · intro x j x' j' hx hl hx' hl' hne
    rcases hlive x j hx hl with ⟨rfl, rfl⟩ | ⟨hxo, hlo, hn⟩
    · rcases hlive x' j' hx' hl' with ⟨rfl, rfl⟩ | ⟨hxo', hlo', hn'⟩
      · exact absurd rfl hne
      · rw [hsame x' j' hxo' hlo' hn']
        exact (hapart x' j' hxo' hlo' hn').symm
    · rcases hlive x' j' hx' hl' with ⟨rfl, rfl⟩ | ⟨hxo', hlo', hn'⟩
      · rw [hsame x j hxo hlo hn]
        exact hapart x j hxo hlo hn
      · rw [hsame x j hxo hlo hn, hsame x' j' hxo' hlo' hn']
        exact h.apart x j x' j' hxo hlo hxo' hlo' hne

/-- Freeing a slot keeps the invariant. -/
theorem Sound.drop (h : Sound m dirs depth) (hdrop : Drop m m' dirs d i) :
    Sound m' (dirsWithout m.disk dirs d i) depth := by
  have he := hdrop.edit
  have hlive (x j : Nat) (hx : dirs x) hl := hdrop.live_cases (j := j) hx hl
  have hsame (x j : Nat) (hx : dirs x) (hl : Live m.disk x j) (hne : (x, j) ≠ (d, i)) :
      entryAt (m'.disk x) j = entryAt (m.disk x) j := he.entryAt_eq hx hl.1 hne
  -- A directory that still has a used slot is not the one that left.
  have hstay (x j : Nat) (hx : dirs x) (hl : Live m.disk x j) :
      dirsWithout m.disk dirs d i x := by
    refine ⟨hx, ?_⟩
    rintro ⟨hld, ht, rfl⟩
    have hf := hdrop.empty hld ht j hl.1
    rw [hl.2] at hf
    cases hf
  refine ⟨he.mounted, Nat.le_trans h.low he.grows, he.high, ⟨h.root, ?_⟩, h.rootDepth,
    ?_, ?_, ?_, ?_⟩
  · rintro ⟨hl, -, hs⟩
    have := (h.entries d i he.dir hl).lower
    rw [← hs] at this
    exact absurd this (by decide)
  · intro x j hx hl
    obtain ⟨hl, hne⟩ := hlive x j hx.1 hl
    exact (h.entries x j hx.1 hl).transport (he.sameSlot hx.1 hl.1 hne) he.grows
  · intro x j hx hl ht
    obtain ⟨hl, hne⟩ := hlive x j hx.1 hl
    rw [hsame x j hx.1 hl hne] at ht ⊢
    obtain ⟨hc, hdep⟩ := h.children x j hx.1 hl ht
    refine ⟨⟨hc, ?_⟩, hdep⟩
    rintro ⟨hld, htd, hs⟩
    have hp := ownedCount_pos (entryAt (m.disk x) j)
    have hq := ownedCount_pos (entryAt (m.disk d) i)
    rcases h.apart x j d i hx.1 hl he.dir hld hne with ha | ha
    · omega
    · omega
  · intro x hx
    rcases h.parents x hx.1 with hr | ⟨p, j, hp, hl, ht, hs⟩
    · exact .inl hr
    · have hne : (p, j) ≠ (d, i) := by
        intro hpj
        cases hpj
        exact hx.2 ⟨hl, ht, hs.symm⟩
      refine .inr ⟨p, j, hstay p j hp hl, (he.live_iff hp hne).mpr hl, ?_, ?_⟩
      · rw [hsame p j hp hl hne]; exact ht
      · rw [hsame p j hp hl hne]; exact hs
  · intro x j x' j' hx hl hx' hl' hne
    obtain ⟨hl, hn⟩ := hlive x j hx.1 hl
    obtain ⟨hl', hn'⟩ := hlive x' j' hx'.1 hl'
    rw [hsame x j hx.1 hl hn, hsame x' j' hx'.1 hl' hn']
    exact h.apart x j x' j' hx.1 hl hx'.1 hl' hne

end Edits

end NasuaOS.ClawFS
