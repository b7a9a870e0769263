import NasuaOS.ClawFS.Distinct
import NasuaOS.ClawFS.Rebuild

/-!
# A freshly formatted disk

`clawfs_format` writes the header and the root by hand and then makes the default tree with the
ordinary operations; the first of them rebuilds the allocator from the new root. Whatever the
disk held before, the result is sound. `clawfs.cpp:247–326`.
-/

namespace NasuaOS.ClawFS

open Base Libc List

variable {m : Machine} {dirs : Nat → Prop} {depth : Nat → Nat} {d i : Nat}

/-- The state after the allocator was rebuilt from the disk. -/
def remounted (m : Machine) : Machine :=
  { m with nextFreeSector := rebuilt m.disk, allocatorInitialized := true }

section

variable (hh : headerValid (m.disk clawfsStartLba) = true)

include hh

/-- Without an allocator in memory, `clawfs_exists` rebuilds it. -/
theorem clawfsExists_unmounted (hi : m.allocatorInitialized = false) (hf : m.faults = noFaults) :
    clawfsExists m = (true, remounted m) := by
  simp [clawfsExists, readSector_faultless m hf, hh, hi, rebuildAllocator_faultless m hf, remounted]

/-- The rebuilt state is mounted. -/
theorem mounted_remounted (hf : m.faults = noFaults) : Mounted (remounted m) := ⟨hh, rfl, hf⟩

/-- Path resolution first mounts. -/
theorem getSectorByPath_unmounted (hi : m.allocatorInitialized = false) (hf : m.faults = noFaults)
    (path : Bytes) : getSectorByPath path m = getSectorByPath path (remounted m) := by
  simp only [getSectorByPath, bind_apply, clawfsExists_unmounted hh hi hf,
    clawfsExists_mounted _ (mounted_remounted hh hf)]

private theorem clawfsMkdir_unmounted (hi : m.allocatorInitialized = false)
    (hf : m.faults = noFaults) (parentPath dirName : Bytes) :
    clawfsMkdir parentPath dirName m = clawfsMkdir parentPath dirName (remounted m) := by
  simp only [clawfsMkdir, bind_apply, getSectorByPath_unmounted hh hi hf]

end

/-- The root buffer after the remaining names were set up. -/
def fillRoot : List Bytes → Nat → Sector → Sector
  | [], _, buffer => buffer
  | name :: rest, i, buffer =>
    fillRoot rest (i + 1) (fillSlot buffer i name clawfsDirectory (102 + i))

/-- The root sector that formatting writes. -/
def rootBuffer : Sector := fillRoot rootEntries 0 Buffer.zero

private theorem setupRoot_faultless (names : List Bytes) (i : Nat) (buffer : Sector)
    (m : Machine) (hf : m.faults = noFaults) :
    setupRoot names i buffer m =
      (fillRoot names i buffer, { m with disk := fun s =>
        if 102 + i ≤ s ∧ s < 102 + i + names.length then Buffer.zero else m.disk s }) := by
  induction names generalizing i buffer m with
  | nil =>
    have hnone (s : Nat) : ¬ (102 + i ≤ s ∧ s < 102 + i + 0) := by omega
    simp only [setupRoot, fillRoot, pure_apply, length_nil, hnone, if_false]
  | cons name rest ih =>
    have hdisk : (fun s => if 102 + (i + 1) ≤ s ∧ s < 102 + (i + 1) + rest.length then Buffer.zero
          else writeDisk m.disk (102 + i) Buffer.zero s) =
        fun s => if 102 + i ≤ s ∧ s < 102 + i + (name :: rest).length then Buffer.zero
          else m.disk s := by
      ext1 s
      rw [length_cons]
      by_cases hs : s = 102 + i
      · subst hs
        rw [if_neg (by omega), if_pos (by omega), writeDisk_same]
      · rw [writeDisk_of_ne _ _ _ _ hs]
        by_cases hr : 102 + i ≤ s ∧ s < 102 + i + (rest.length + 1)
        · rw [if_pos (by omega), if_pos hr]
        · rw [if_neg (by omega), if_neg hr]
    simp only [setupRoot, setupEntry, bind_apply, pure_apply, writeSector_faultless m hf]
    rw [ih]
    · rw [← hdisk]
      rfl
    · exact hf

private theorem rootBuffer_slots : ∀ i < slotCount, used rootBuffer i = true →
    i < 10 ∧ entryAt rootBuffer i = ⟨clawfsDirectory, 102 + i, 0⟩ ∧
      ∃ k < 28, rootBuffer.byte (entrySize * i + k) = 0 := by
  decide +kernel

private theorem headerValid_headerBuffer : headerValid headerBuffer = true := by decide

private theorem formatRoot_faultless (hf : m.faults = noFaults) :
    (formatRoot m).2 =
      { m with
        disk := writeDisk (fun s => if 102 ≤ s ∧ s < 112 then Buffer.zero
          else writeDisk m.disk clawfsStartLba headerBuffer s) clawfsRootSector rootBuffer
        nextFreeSector := firstFreeSector
        allocatorInitialized := false } := by
  -- The states after the allocator reset, the header and the ten cleared sectors.
  let reset : Machine := { m with nextFreeSector := firstFreeSector, allocatorInitialized := false }
  let headed : Machine := { reset with disk := writeDisk m.disk clawfsStartLba headerBuffer }
  let cleared : Machine := { headed with disk := fun s =>
    if 102 ≤ s ∧ s < 112 then Buffer.zero else headed.disk s }
  have hheader : writeSector clawfsStartLba headerBuffer reset = (true, headed) :=
    writeSector_faultless reset hf _ _
  have hsetup : setupRoot rootEntries 0 Buffer.zero headed = (rootBuffer, cleared) :=
    setupRoot_faultless rootEntries 0 Buffer.zero headed hf
  have hroot := writeSector_faultless cleared hf clawfsRootSector rootBuffer
  simp only [formatRoot, bind_apply, modify_apply, pure_apply]
  rw [hheader, hsetup, hroot]

/-- The state after header and root were written, with the allocator in memory. -/
def freshRoot (m : Machine) : Machine :=
  { (formatRoot m).2 with allocatorInitialized := true }

private theorem freshRoot_disk (hf : m.faults = noFaults) (s : Nat) (hs : s < 112) : (freshRoot m).disk s =
      if s = clawfsRootSector then rootBuffer else if 102 ≤ s then Buffer.zero
      else if s = clawfsStartLba then headerBuffer else m.disk s := by
  simp only [freshRoot, formatRoot_faultless hf, writeDisk]
  split
  · rfl
  · by_cases hl : 102 ≤ s
    · rw [if_pos ⟨hl, hs⟩, if_pos hl]
    · rw [if_neg (by omega), if_neg hl]

/-- Directories of a fresh disk. -/
def freshDirs (s : Nat) : Prop := clawfsRootSector ≤ s ∧ s < 112

instance (s : Nat) : Decidable (freshDirs s) := inferInstanceAs (Decidable (_ ∧ _))

/-- Their depths. -/
def freshDepth (s : Nat) : Nat := if s = clawfsRootSector then 0 else 1

section

variable (hf : m.faults = noFaults)

include hf

private theorem freshRoot_live (hd : freshDirs d) (hl : Live (freshRoot m).disk d i) :
    d = clawfsRootSector ∧ i < 10 ∧ (freshRoot m).disk d = rootBuffer := by
  obtain ⟨hi, hu⟩ := hl
  have hdisk := freshRoot_disk hf d hd.2
  by_cases hroot : d = clawfsRootSector
  · rw [if_pos hroot] at hdisk
    rw [hdisk] at hu
    exact ⟨hroot, (rootBuffer_slots i hi hu).1, hdisk⟩
  · have h102 : 102 ≤ d := by
      have hlow := hd.1
      simp only [clawfsRootSector] at hlow hroot
      omega
    rw [if_neg hroot, if_pos h102] at hdisk
    rw [hdisk, used, Buffer.byte_zero] at hu
    cases hu

private theorem freshRoot_entry (hd : freshDirs d) (hl : Live (freshRoot m).disk d i) :
    entryAt ((freshRoot m).disk d) i = ⟨clawfsDirectory, 102 + i, 0⟩ := by
  obtain ⟨-, -, hbuffer⟩ := freshRoot_live hf hd hl
  rw [hbuffer]
  rw [Live, hbuffer] at hl
  exact (rootBuffer_slots i hl.1 hl.2).2.1

private theorem sound_freshRoot : Sound (freshRoot m) freshDirs freshDepth := by
  have hnext : (freshRoot m).nextFreeSector = 112 := by
    rw [freshRoot, formatRoot_faultless hf]
    rfl
  have hcount (k : Nat) : ownedCount ⟨clawfsDirectory, k, 0⟩ = 1 := ownedCount_directory rfl
  refine ⟨⟨?_, rfl, ?_⟩, ?_, ?_, by decide, rfl, ?_, ?_, ?_, ?_⟩
  · have hdisk := freshRoot_disk hf clawfsStartLba (by decide)
    rw [if_neg (by decide), if_neg (by decide), if_pos rfl] at hdisk
    rw [hdisk]
    exact headerValid_headerBuffer
  · rw [freshRoot, formatRoot_faultless hf]
    exact hf
  · rw [hnext]
    decide
  · rw [hnext]
    decide
  · intro d i hd hl
    have hentry := freshRoot_entry hf hd hl
    obtain ⟨-, hi, hbuffer⟩ := freshRoot_live hf hd hl
    refine ⟨?_, ?_, ?_, ?_, ?_⟩
    · rw [Live, hbuffer] at hl
      rw [hbuffer]
      exact (rootBuffer_slots i hl.1 hl.2).2.2
    · rw [hentry]
      exact .inr rfl
    · rw [hentry, firstDataSector]
      exact Nat.le_add_right 102 i
    · rw [hentry, hcount, hnext]
      simp only
      omega
    · rw [hentry]
      exact Nat.zero_le _
  · intro d i hd hl _
    rw [freshRoot_entry hf hd hl]
    obtain ⟨hroot, hi, -⟩ := freshRoot_live hf hd hl
    have hne : 102 + i ≠ clawfsRootSector := by
      rw [clawfsRootSector]
      omega
    constructor
    · change 101 ≤ 102 + i ∧ 102 + i < 112
      omega
    · rw [hroot, freshDepth, if_neg hne, freshDepth, if_pos rfl]
  · intro d hd
    by_cases hroot : d = clawfsRootSector
    · exact .inl hroot
    · -- Sector `102 + i` is the directory of root slot `i`.
      have hlow := hd.1
      have hup := hd.2
      simp only [clawfsRootSector] at hlow hroot
      have hdisk := freshRoot_disk hf clawfsRootSector (by decide)
      rw [if_pos rfl] at hdisk
      have hl : Live (freshRoot m).disk clawfsRootSector (d - 102) := by
        rw [Live, hdisk]
        have hused : ∀ k < 10, k < slotCount ∧ used rootBuffer k = true := by decide
        exact hused (d - 102) (by omega)
      have hentry := freshRoot_entry hf (by decide) hl
      refine .inr ⟨clawfsRootSector, d - 102, by decide, hl, ?_, ?_⟩
      · rw [hentry]
      · rw [hentry]
        simp only
        omega
  · intro d i d' i' hd hl hd' hl' hne
    have hr := (freshRoot_live hf hd hl).1
    have hr' := (freshRoot_live hf hd' hl').1
    rw [freshRoot_entry hf hd hl, freshRoot_entry hf hd' hl']
    have hii : i ≠ i' := by
      intro hii
      exact hne (by rw [hr, hr', hii])
    simp only [Apart, hcount]
    omega

private theorem remounted_formatRoot : remounted (formatRoot m).2 = freshRoot m := by
  have hs := sound_freshRoot hf
  have hb := hs.rebuilt_bounds
  have hnext : (formatRoot m).2.nextFreeSector = firstFreeSector := by
    rw [formatRoot_faultless hf]
  simp only [freshRoot, hnext] at hb
  have hr := Nat.le_antisymm hb.2 hb.1
  simp only [remounted, freshRoot, hr, hnext]

end

/-- Every entry of the tree has one of the names, and the type that comes with it. -/
def Among (disk : Disk) (dirs : Nat → Prop) (names : List (Bytes × Nat)) : Prop :=
  ∀ d i, dirs d → Live disk d i → ∃ e ∈ names, (0 : UInt8) ∉ e.1 ∧
    named (disk d) e.1 i = true ∧ (entryAt (disk d) i).type = e.2

/-- A default entry: path, name and type. -/
abbrev Default := Bytes × Bytes × Nat

/-- An entry of the default tree: a path through names of directories, and a name that an entry can
hold and none has yet. -/
def DefaultEntry (names : List (Bytes × Nat)) (p : Default) : Prop :=
  (p.1.length < 128 ∧ (pathTokens p.1).length < rebuildLevels) ∧
    (∀ token ∈ pathTokens p.1, (0 : UInt8) ∉ token ∧
      ∀ e ∈ names, e.1 = token → e.2 = clawfsDirectory) ∧
    (p.2.1 ≠ [] ∧ p.2.1.length < 28) ∧ (0 : UInt8) ∉ p.2.1 ∧
    (p.2.2 = clawfsFile ∨ p.2.2 = clawfsDirectory) ∧ ∀ e ∈ names, e.1 ≠ p.2.1

/-- Entries of the default tree, one after the other. -/
def DefaultEntries : List (Bytes × Nat) → List Default → Prop
  | _, [] => True
  | names, p :: rest => DefaultEntry names p ∧ DefaultEntries (p.2 :: names) rest

instance (names : List (Bytes × Nat)) (p : Default) : Decidable (DefaultEntry names p) :=
  inferInstanceAs (Decidable (_ ∧ _))

instance decidableDefaultEntries : (names : List (Bytes × Nat)) → (l : List Default) →
    Decidable (DefaultEntries names l)
  | _, [] => isTrue trivial
  | names, p :: rest =>
    have := decidableDefaultEntries (p.2 :: names) rest
    inferInstanceAs (Decidable (DefaultEntry names p ∧ DefaultEntries (p.2 :: names) rest))

/-- The tree while the default entries are made. -/
structure DefaultTree (m : Machine) (dirs : Nat → Prop) (depth : Nat → Nat)
    (names : List (Bytes × Nat)) : Prop where
  sound : Sound m dirs depth
  bounded : Bounded m dirs depth rebuildLevels
  among : Among m.disk dirs names
  distinct : Distinct m.disk dirs

/-- The operation that makes a default entry. -/
def setUp (m : Machine) (p : Default) : Machine :=
  if p.2.2 = clawfsDirectory then (clawfsMkdir p.1 p.2.1 m).2
  else (clawfsCreateFileIn p.1 p.2.1 m).2

/-- All default entries, in order. -/
def defaults : List Default :=
  defaultDirectories.map (fun p => (p.1, p.2, clawfsDirectory)) ++
    defaultFiles.map fun p => (p.1, p.2, clawfsFile)

namespace DefaultTree

variable {names : List (Bytes × Nat)} {p : Default}

private theorem name_eq (h : DefaultTree m dirs depth names) (hd : dirs d) {name : Bytes}
    (h0 : (0 : UInt8) ∉ name) (hf : findSlot (m.disk d) name = some i) :
    Live m.disk d i ∧ ∃ e ∈ names, e.1 = name ∧ (entryAt (m.disk d) i).type = e.2 := by
  obtain ⟨hi, hp⟩ := firstSlot_some hf
  rw [Bool.and_eq_true] at hp
  obtain ⟨e, he, he0, hname, htype⟩ := h.among d i hd ⟨hi, hp.1⟩
  have heq : (⟨e.1, he0⟩ : CString) = ⟨name, h0⟩ := named_unique hname hp.2
  exact ⟨⟨hi, hp.1⟩, e, he, congrArg Subtype.val heq, htype⟩

private theorem throughDirs (h : DefaultTree m dirs depth names) (tokens : List Bytes)
    (hd : dirs d) (ht : ∀ token ∈ tokens, (0 : UInt8) ∉ token ∧
      ∀ e ∈ names, e.1 = token → e.2 = clawfsDirectory) : ThroughDirs m.disk d tokens := by
  induction tokens generalizing d with
  | nil => trivial
  | cons token rest ih =>
    intro e he
    obtain ⟨j, hf, -, -, rfl, -⟩ := findEntry_some he
    obtain ⟨h0, hdirectory⟩ := ht token mem_cons_self
    obtain ⟨hl, e, he, hname, htype⟩ := h.name_eq hd h0 hf
    rw [hdirectory e he hname] at htype
    exact ⟨htype, ih (h.sound.children d j hd hl htype).1
      fun other hmem => ht other (mem_cons_of_mem _ hmem)⟩

private theorem setUp_eq (h : DefaultTree m dirs depth names) (hp : DefaultEntry names p) :
    setUp m p = created m p.1 p.2.1 p.2.2 := by
  obtain ⟨-, -, hname, -, htype, -⟩ := hp
  rw [setUp, clawfsMkdir_created h.sound.mounted, clawfsCreateFileIn_created h.sound.mounted,
    if_neg (not_or.mpr ⟨hname.1, Nat.not_le.mpr hname.2⟩)]
  rcases htype with ht | ht
  · rw [ht, if_neg (by decide)]
  · rw [ht, if_pos rfl]

private theorem step (h : DefaultTree m dirs depth names) (hp : DefaultEntry names p)
    (hnext : m.nextFreeSector + 1 < 2 ^ 32) :
    (∃ dirs' depth', DefaultTree (setUp m p) dirs' depth' (p.2 :: names)) ∧
      (setUp m p).nextFreeSector ≤ m.nextFreeSector + 1 := by
  rw [h.setUp_eq hp]
  obtain ⟨⟨hlen, hlevel⟩, htokens, hname, h0, htype, hfresh⟩ := hp
  have hthrough := h.throughDirs _ h.sound.root htokens
  obtain ⟨extra, hextra, hcreated⟩ := created_next p.1 p.2.1 p.2.2 hnext
  refine ⟨?_, by omega⟩
  have hmore (d i : Nat) (hd : dirs d) (hl : Live m.disk d i) :
      ∃ e ∈ p.2 :: names, (0 : UInt8) ∉ e.1 ∧ named (m.disk d) e.1 i = true ∧
        (entryAt (m.disk d) i).type = e.2 := by
    obtain ⟨e, he, hrest⟩ := h.among d i hd hl
    exact ⟨e, mem_cons_of_mem _ he, hrest⟩
  rcases h.sound.created_cases ⟨hlen, hthrough⟩ hname h0 htype
    (by rw [allocatedBy, hcreated]; omega) with ⟨heq, -⟩ | ⟨d, i, -, hdep, heq, hput, -⟩
  · rw [heq]
    exact ⟨dirs, depth, h.sound, h.bounded, hmore, h.distinct⟩
  · rw [heq]
    have hcalled : named ((addEntry m d i p.2.1 p.2.2).disk d) p.2.1 i = true :=
      named_addEntry m d hput.slot h0 hname.2 _
    refine ⟨_, _, h.sound.put hput, hput.bounded h.sound h.bounded (by omega), ?_, ?_⟩
    · intro x j hx hl
      rcases hput.live_cases hx hl with ⟨rfl, rfl⟩ | ⟨hxo, hlo, hn⟩
      · refine ⟨p.2, mem_cons_self, h0, hcalled, ?_⟩
        rw [entryAt_addEntry hput.slot _ (by rcases htype with ht | ht <;> rw [ht] <;> decide)
          h.sound.high]
      · rw [hput.entryAt_eq hxo hlo.1 hn]
        simp only [hput.edit.named_eq h.sound hxo hlo hn]
        exact hmore x j hxo hlo
    · have hcalled' : named _ (⟨p.2.1, h0⟩ : CString).val i = true := hcalled
      apply hput.distinct h.sound h.distinct hcalled'
      left
      cases hf : findSlot (m.disk d) p.2.1 with
      | none => rfl
      | some j =>
        obtain ⟨-, e, he, hsame, -⟩ := h.name_eq hput.dir h0 hf
        exact absurd hsame (hfresh e he)

private theorem run (h : DefaultTree m dirs depth names) (l : List Default)
    (hl : DefaultEntries names l) (hnext : m.nextFreeSector + l.length < 2 ^ 32) :
    (∃ dirs' depth' names', DefaultTree (l.foldl setUp m) dirs' depth' names') ∧
      (l.foldl setUp m).nextFreeSector ≤ m.nextFreeSector + l.length := by
  induction l generalizing m dirs depth names with
  | nil => exact ⟨⟨dirs, depth, names, h⟩, le_rfl⟩
  | cons p l ih =>
    rw [length_cons] at hnext ⊢
    obtain ⟨⟨dirs1, depth1, h1⟩, hn1⟩ := h.step hl.1 (by omega)
    obtain ⟨h2, hn2⟩ := ih h1 hl.2 (by omega)
    exact ⟨h2, Nat.le_trans hn2 (by omega)⟩

end DefaultTree

/-- The names in the root that formatting writes. -/
def rootNames : List (Bytes × Nat) := rootEntries.map fun name => (name, clawfsDirectory)

private theorem rootBuffer_named : (∀ i < slotCount, used rootBuffer i = true →
    (0 : UInt8) ∉ rootEntries.getD i [] ∧ named rootBuffer (rootEntries.getD i []) i = true) ∧
    ∀ i < 10, ∀ j < 10, rootEntries.getD i [] = rootEntries.getD j [] → i = j := by
  decide

private theorem freshRoot_tree (hf : m.faults = noFaults) :
    DefaultTree (freshRoot m) freshDirs freshDepth rootNames := by
  have hslot (d i : Nat) (hd : freshDirs d) (hl : Live (freshRoot m).disk d i) :
      (0 : UInt8) ∉ rootEntries.getD i [] ∧
        named ((freshRoot m).disk d) (rootEntries.getD i []) i = true := by
    obtain ⟨-, -, hbuffer⟩ := freshRoot_live hf hd hl
    rw [Live, hbuffer] at hl
    rw [hbuffer]
    exact rootBuffer_named.1 i hl.1 hl.2
  refine ⟨sound_freshRoot hf, ?_, ?_, ?_⟩
  · intro d i hd hl
    rw [(freshRoot_live hf hd hl).1]
    decide
  · intro d i hd hl
    obtain ⟨-, hi, -⟩ := freshRoot_live hf hd hl
    obtain ⟨h0, hname⟩ := hslot d i hd hl
    refine ⟨(rootEntries.getD i [], clawfsDirectory), ?_, h0, hname, ?_⟩
    · rw [getD_eq_getElem _ _ hi]
      exact mem_map_of_mem (getElem_mem hi)
    · rw [freshRoot_entry hf hd hl]
  · intro d i j name hd hli hlj hni hnj
    obtain ⟨hi0, hi⟩ := hslot d i hd hli
    obtain ⟨hj0, hj⟩ := hslot d j hd hlj
    have hi' : name = ⟨rootEntries.getD i [], hi0⟩ := named_unique hni hi
    have hj' : name = ⟨rootEntries.getD j [], hj0⟩ := named_unique hnj hj
    exact rootBuffer_named.2 i (freshRoot_live hf hd hli).2.1 j (freshRoot_live hf hd hlj).2.1
      (congrArg Subtype.val (hi'.symm.trans hj'))

/-- Formatting any disk leaves a sound tree, far above the depth of the rebuild, with a sector for
each default entry and distinct names. -/
theorem sound_clawfsFormat (hf : m.faults = noFaults) :
    ∃ dirs depth, Sound (clawfsFormat m).2 dirs depth ∧
      Bounded (clawfsFormat m).2 dirs depth rebuildLevels ∧ (clawfsFormat m).2.nextFreeSector ≤
        firstFreeSector + defaultDirectories.length + defaultFiles.length ∧
      Distinct (clawfsFormat m).2.disk dirs := by
  have hfresh := freshRoot_tree hf
  have hnext : (freshRoot m).nextFreeSector = 112 := by
    rw [freshRoot, formatRoot_faultless hf]
    rfl
  have hstate : (formatRoot m).2.allocatorInitialized = false ∧
      (formatRoot m).2.faults = noFaults := by
    rw [formatRoot_faultless hf]
    exact ⟨rfl, hf⟩
  have hheader := hfresh.sound.mounted.header
  simp only [freshRoot] at hheader
  -- The first directory is made from the unmounted root, all others from a mounted state.
  have hformat : (clawfsFormat m).2 = defaults.foldl setUp (freshRoot m) := by
    have hfold : (clawfsFormat m).2 = defaults.foldl setUp (formatRoot m).2 := by
      simp only [clawfsFormat, bind_apply, forM_apply, pure_apply, defaults, foldl_append,
        foldl_map, setUp, if_pos, if_neg file_ne_directory]
    obtain ⟨p, l, hl, htype⟩ : ∃ p l, defaults = p :: l ∧ p.2.2 = clawfsDirectory :=
      ⟨_, _, rfl, rfl⟩
    rw [hfold, ← remounted_formatRoot hf, hl, foldl_cons, foldl_cons, setUp, if_pos htype,
      clawfsMkdir_unmounted hheader hstate.1 hstate.2, setUp, if_pos htype]
  obtain ⟨⟨dirs, depth, names, htree⟩, hbound⟩ := hfresh.run defaults (by decide)
    (by rw [hnext]; decide)
  rw [← hformat] at htree hbound
  refine ⟨dirs, depth, htree.sound, htree.bounded, ?_, htree.distinct⟩
  rw [hnext] at hbound
  exact hbound

/-- Formatting leaves the allocator far from its end. -/
theorem nextFreeSector_clawfsFormat_lt (hf : m.faults = noFaults) :
    (clawfsFormat m).2.nextFreeSector < 2 ^ 32 := by
  obtain ⟨-, -, -, -, hbound, -⟩ := sound_clawfsFormat hf
  exact Nat.lt_of_le_of_lt hbound (by decide)

end NasuaOS.ClawFS
