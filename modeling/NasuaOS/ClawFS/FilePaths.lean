import NasuaOS.ClawFS.Runs

/-!
# Paths through a regular file

`get_sector_by_path` follows the sector of every component it finds and never looks at its type,
so a regular file in the middle of a path is read as a directory. This module says for which bytes
of that file each operation still leaves the disk alone. `clawfs.cpp:174–218`.
-/

namespace NasuaOS.ClawFS

open Base Libc

variable {m : Machine}

/-- Some component of a path names a regular file. -/
def ThroughFile (disk : Disk) : Nat → List Bytes → Prop
  | _, [] => False
  | dir, token :: rest =>
    ∃ e, findEntry (disk dir) token = some e ∧
      (e.type = clawfsFile ∨ e.type = clawfsDirectory ∧ ThroughFile disk e.dataSector rest)

instance decidableThroughFile (disk : Disk) :
    (dir : Nat) → (tokens : List Bytes) → Decidable (ThroughFile disk dir tokens)
  | _, [] => isFalse id
  | dir, token :: rest =>
    match h : findEntry (disk dir) token with
    | none => isFalse fun ⟨e, he, _⟩ => by rw [h] at he; cases he
    | some e =>
      have := decidableThroughFile disk e.dataSector rest
      decidable_of_iff (e.type = clawfsFile ∨
          e.type = clawfsDirectory ∧ ThroughFile disk e.dataSector rest)
        ⟨fun ht => ⟨e, h, ht⟩, fun ⟨f, hf, ht⟩ => by rw [h] at hf; cases hf; exact ht⟩

/-- A path through a regular file that fits the 128-byte copy of `get_sector_by_path`. -/
def FilePath (disk : Disk) (path : Bytes) : Prop :=
  path.length < 128 ∧ ThroughFile disk clawfsRootSector (pathTokens path)

instance (disk : Disk) (path : Bytes) : Decidable (FilePath disk path) :=
  inferInstanceAs (Decidable (_ ∧ _))

/-- The first component of a path that names a regular file, and the components behind it. -/
inductive FirstFile (disk : Disk) :
    Nat → List Bytes → CLAWFSEntry → List Bytes → Prop
  | file {dir : Nat} {token : Bytes} {rest : List Bytes} {e : CLAWFSEntry}
      (he : findEntry (disk dir) token = some e) (htype : e.type = clawfsFile) :
      FirstFile disk dir (token :: rest) e rest
  | into {dir : Nat} {token : Bytes} {tokens rest : List Bytes} {d e : CLAWFSEntry}
      (hd : findEntry (disk dir) token = some d) (htype : d.type = clawfsDirectory)
      (hrest : FirstFile disk d.dataSector tokens e rest) : FirstFile disk dir (token :: tokens) e rest

/-- The bytes of a sector, read as twelve slots, spell the way to another one: a slot for every
component, with the sector of the next. -/
inductive Spells (disk : Disk) : Nat → List Bytes → Nat → Prop
  | here (sector : Nat) : Spells disk sector [] sector
  | slot {sector target i : Nat} {token : Bytes} {rest : List Bytes}
      (hi : findSlot (disk sector) token = some i)
      (hne : (entryAt (disk sector) i).dataSector ≠ 0)
      (hrest : Spells disk (entryAt (disk sector) i).dataSector rest target) :
      Spells disk sector (token :: rest) target

/-- The bytes of the first regular file on a path spell the rest of the path, up to `target`. -/
def FileSpells (disk : Disk) (path : Bytes) (target : Nat) : Prop :=
  ∃ e rest, FirstFile disk clawfsRootSector (pathTokens path) e rest ∧
    Spells disk e.dataSector rest target

variable {disk : Disk} {dir target : Nat} {tokens rest : List Bytes}
  {e : CLAWFSEntry} {name path : Bytes}

private theorem ThroughFile.first (h : ThroughFile disk dir tokens) :
    ∃ e rest, FirstFile disk dir tokens e rest := by
  induction tokens generalizing dir with
  | nil => exact h.elim
  | cons token tokens ih =>
    obtain ⟨d, hd, htype | ⟨htype, h⟩⟩ := h
    · exact ⟨d, tokens, .file hd htype⟩
    · obtain ⟨e, rest, hfirst⟩ := ih h
      exact ⟨e, rest, .into hd htype hfirst⟩

private theorem FirstFile.lookup (h : FirstFile disk dir tokens e rest) :
    lookupTokens disk dir tokens = lookupTokens disk e.dataSector rest ∧ e.dataSector ≠ 0 := by
  induction h with
  | file he htype =>
    obtain ⟨i, -, -, -, rfl, hne⟩ := findEntry_some he
    exact ⟨by rw [lookupTokens, he], hne⟩
  | into hd htype _ ih =>
    rw [lookupTokens, hd]
    exact ih

private theorem spells_iff (hdir : dir ≠ 0) :
    Spells disk dir rest target ↔ target ≠ 0 ∧ lookupTokens disk dir rest = target := by
  constructor
  · intro h
    induction h with
    | here => exact ⟨hdir, rfl⟩
    | slot hi hne _ ih =>
      have he := ih hne
      rw [lookupTokens, findEntry, hi, Option.bind_some, if_neg hne]
      exact he
  · rintro ⟨hne, rfl⟩
    induction rest generalizing dir with
    | nil => exact .here _
    | cons token rest ih =>
      rw [lookupTokens] at hne ⊢
      cases he : findEntry (disk dir) token with
      | none =>
        rw [he] at hne
        exact absurd rfl hne
      | some e =>
        rw [he] at hne
        obtain ⟨i, hi, -, -, rfl, hsector⟩ := findEntry_some he
        exact .slot hi hsector (ih hsector hne)

/-- Where a path through a file leads is what the file's bytes spell. -/
private theorem fileSpells_iff (h : FilePath disk path)
    (Q : Nat → Prop) : (lookupPath disk path = 0 ∨ Q (lookupPath disk path)) ↔
      ∀ target, FileSpells disk path target → Q target := by
  constructor
  · rintro hlook target ⟨e, rest, hfirst, hspells⟩
    obtain ⟨heq, hne⟩ := hfirst.lookup
    obtain ⟨htarget, rfl⟩ := (spells_iff hne).mp hspells
    rw [lookupPath, heq] at hlook
    exact hlook.resolve_left htarget
  · intro hall
    obtain ⟨e, rest, hfirst⟩ := h.2.first
    obtain ⟨heq, hne⟩ := hfirst.lookup
    rw [lookupPath, heq]
    refine or_iff_not_imp_left.mpr fun hlook => ?_
    exact hall _ ⟨e, rest, hfirst, (spells_iff hne).mpr ⟨hlook, rfl⟩⟩

/-- Every slot of a sector is used: its first byte is not zero. -/
def Full (buffer : Sector) : Prop := ∀ i < slotCount, used buffer i = true

private theorem freeSlot_eq_none (buffer : Sector) : freeSlot buffer = none ↔ Full buffer := by
  simp [freeSlot, firstSlot, Full]

private theorem fillSlot_ne {buffer : Sector} {i : Nat} (hi : freeSlot buffer = some i)
    (hne : name ≠ []) (h0 : (0 : UInt8) ∉ name) (hn : name.length < 28) (type sector : Nat) :
    fillSlot buffer i name type sector ≠ buffer := by
  obtain ⟨hs, hu⟩ := firstSlot_some hi
  intro heq
  have hused := used_of_holds h0 hne (holds_fillSlot buffer i name type sector hs hn)
  rw [heq] at hused
  rw [hused] at hu
  cases hu

private theorem created_disk_iff (path : Bytes) (hne : name ≠ []) (hshort : name.length < 28)
    (h0 : (0 : UInt8) ∉ name) (type : Nat) : (created m path name type).disk = m.disk ↔
      lookupPath m.disk path = 0 ∨ Full (m.disk (lookupPath m.disk path)) := by
  rw [created, ← freeSlot_eq_none]
  split
  · next hz => simp only [hz, true_or]
  · next hz =>
    cases hf : freeSlot (m.disk (lookupPath m.disk path)) with
    | none => simp only [or_true]
    | some i =>
      simp only [hz, false_or, reduceCtorEq, iff_false]
      intro heq
      have hslot := congrFun heq (lookupPath m.disk path)
      simp only [addEntry, writeDisk_same] at hslot
      exact fillSlot_ne hf hne h0 hshort type _ hslot

/-- `clawfs_create_file_in` leaves the disk alone exactly when the name is invalid or its walk
finds nothing or a full sector. -/
theorem clawfsCreateFileIn_disk_iff (h : Mounted m) (path : Bytes) (h0 : (0 : UInt8) ∉ name) :
    (clawfsCreateFileIn path name m).2.disk = m.disk ↔
      (name = [] ∨ 28 ≤ name.length) ∨ lookupPath m.disk path = 0 ∨
        Full (m.disk (lookupPath m.disk path)) := by
  rw [clawfsCreateFileIn_created h]
  split
  · next hn => simp only [hn, true_or]
  · next hn =>
    have hvalid := not_or.mp hn
    simp only [hn, false_or]
    exact created_disk_iff path hvalid.1 (Nat.not_le.mp hvalid.2) h0 clawfsFile

/-- `clawfs_rm` leaves the disk alone exactly when its walk finds nothing, the sector has no
matching entry, or the entry passes for a directory that is not empty. -/
theorem clawfsRm_disk_iff (h : Mounted m) (parentPath name : Bytes) (type : Nat) :
    (clawfsRm parentPath name type m).2.disk = m.disk ↔ lookupPath m.disk parentPath = 0 ∨
        ∀ i, removalSlot (m.disk (lookupPath m.disk parentPath)) name type = some i →
          removalBlocked m.disk (m.disk (lookupPath m.disk parentPath)) i type = true := by
  rw [clawfsRm_mounted m h]
  split
  · next hz => simp only [hz, true_or]
  · next hz =>
    cases hr : removalSlot (m.disk (lookupPath m.disk parentPath)) name type with
    | none => simp only [reduceCtorEq, false_implies, implies_true, or_true]
    | some i =>
      simp only [hz, false_or, Option.some.injEq, forall_eq']
      split
      · next hb => simp only [hb]
      · next hb =>
        simp only [hb]
        constructor
        · intro heq
          obtain ⟨hi, hp⟩ := firstSlot_some hr
          simp only [Bool.and_eq_true] at hp
          have hd := congrFun heq (lookupPath m.disk parentPath)
          simp only [dropEntry, writeDisk_same] at hd
          have hu := used_clearSlot (m.disk (lookupPath m.disk parentPath)) i hi
          rw [hd, hp.1.1] at hu
          cases hu
        · intro hc
          exact absurd hc (by simp)

/-- A store for this entry gives up before it writes. -/
def StoreRefused (m : Machine) (e : CLAWFSEntry) (length : Nat) : Prop :=
  e.type ≠ clawfsFile ∨ clawfsMaxFileSize < e.entryCount ∨
    targetFor m.nextFreeSector e (sectorsFor length) = none

private theorem storeContents_of_findEntry (hf : m.faults = noFaults)
    (hi : m.allocatorInitialized = true) {d : Nat} {e : CLAWFSEntry} (h0 : (0 : UInt8) ∉ name)
    (hne : name ≠ []) (he : findEntry (m.disk d) name = some e) (data : Bytes) :
    (StoreRefused m e data.length ∧ storeContents d (m.disk d) name e data m = (false, m)) ∨
      (¬ StoreRefused m e data.length ∧ (storeContents d (m.disk d) name e data m).1 = true) := by
  rw [storeContents_initialized m hf hi]
  by_cases hc : e.type ≠ clawfsFile ∨ clawfsMaxFileSize < e.entryCount
  · left
    rw [if_pos hc]
    exact ⟨by rw [StoreRefused, ← or_assoc]; exact .inl hc, rfl⟩
  · rw [if_neg hc]
    cases ht : targetFor m.nextFreeSector e (sectorsFor data.length) with
    | none => exact .inl ⟨.inr (.inr ht), rfl⟩
    | some p =>
      right
      constructor
      · rw [StoreRefused, ← or_assoc, ht]
        simp only [hc, reduceCtorEq, or_self, not_false_eq_true]
      · obtain ⟨i, hs, -, -, rfl, -⟩ := findEntry_some he
        rw [not_or, not_not] at hc
        simp only [fileSlot_of_findSlot h0 hne hs hc.1]

/-- A write has no place in a sector: the entry of the name is refused, or there is none and every
slot is used. -/
def NoPlace (m : Machine) (sector : Nat) (fileName : Bytes) (length : Nat) : Prop :=
  (∃ e, findEntry (m.disk sector) fileName = some e ∧ StoreRefused m e length) ∨
    findEntry (m.disk sector) fileName = none ∧ Full (m.disk sector)

/-- `clawfs_write_file` with a path it accepts fails and leaves the disk alone exactly when its walk
finds nothing or a sector with no place. -/
theorem clawfsWriteFile_noPlace_iff (h : Mounted m) (path : CString) {data : Bytes}
    (hlen : data.length ≤ clawfsMaxFileSize) {parentPath fileName : Bytes}
    (hs : splitFilePath path.val = some (parentPath, fileName)) :
    ((clawfsWriteFile path.val data m).1 = false ∧
        (clawfsWriteFile path.val data m).2.disk = m.disk) ↔ lookupPath m.disk parentPath = 0 ∨
          NoPlace m (lookupPath m.disk parentPath) fileName data.length := by
  obtain ⟨hne, hshort, hsub⟩ := splitFilePath_name hs
  have h0 : (0 : UInt8) ∉ fileName := fun hc => path.property (hsub 0 hc)
  rw [clawfsWriteFile_mounted m h, if_neg (Nat.not_lt.mpr hlen), hs, NoPlace]
  simp only
  by_cases hz : lookupPath m.disk parentPath = 0
  · rw [if_pos hz]
    simp only [hz, and_self, true_or]
  · rw [if_neg hz]
    simp only [hz, false_or]
    cases hf : findEntry (m.disk (lookupPath m.disk parentPath)) fileName with
    | some e =>
      simp only [Option.some.injEq, exists_eq_left', reduceCtorEq, false_and, or_false]
      rcases storeContents_of_findEntry h.faultless h.initialized h0 hne hf data with
        ⟨hr, heq⟩ | ⟨hr, heq⟩
      · simp only [hr, heq, and_self]
      · simp only [hr, heq, Bool.true_eq_false, false_and]
    | none =>
      simp only [reduceCtorEq, false_and, exists_false, true_and, false_or]
      -- The created entry shows on the disk, whether or not its contents could be stored.
      have hcreate := clawfsCreateFileIn_disk_iff h parentPath h0
      have hname : ¬ (fileName = [] ∨ 28 ≤ fileName.length) := by
        rw [not_or, Nat.not_le]
        exact ⟨hne, hshort⟩
      obtain ⟨hfaults, hinit⟩ := clawfsCreateFileIn_keeps m h parentPath fileName
      simp only [hname, hz, false_or] at hcreate
      generalize (clawfsCreateFileIn parentPath fileName m).2 = m' at *
      rw [← hcreate]
      cases hf' : findEntry (m'.disk (lookupPath m.disk parentPath)) fileName with
      | none => simp only [true_and]
      | some e =>
        have hchanged : m'.disk ≠ m.disk := by
          intro heq
          rw [heq, hf] at hf'
          cases hf'
        simp only [hchanged, iff_false, not_and]
        rcases storeContents_of_findEntry hfaults hinit h0 hne hf' data with ⟨-, heq⟩ | ⟨-, heq⟩
        · rw [heq]
          intro _
          exact hchanged
        · rw [heq]
          intro hc
          cases hc

/-- `clawfs_write_file` fails and leaves the disk alone exactly when the contents are too long or
the path, if it is one at all, leads nowhere. -/
theorem clawfsWriteFile_refused_iff (h : Mounted m) (path : CString) (data : Bytes) :
    ((clawfsWriteFile path.val data m).1 = false ∧
        (clawfsWriteFile path.val data m).2.disk = m.disk) ↔ clawfsMaxFileSize < data.length ∨
        ∀ parentPath fileName, splitFilePath path.val = some (parentPath, fileName) →
          lookupPath m.disk parentPath = 0 ∨
            NoPlace m (lookupPath m.disk parentPath) fileName data.length := by
  by_cases hlen : clawfsMaxFileSize < data.length
  · rw [clawfsWriteFile_mounted m h, if_pos hlen]
    simp only [hlen, and_self, true_or]
  · cases hs : splitFilePath path.val with
    | none =>
      rw [clawfsWriteFile_mounted m h, if_neg hlen, hs]
      simp only [reduceCtorEq, false_implies, implies_true, and_self, or_true]
    | some parts =>
      rw [clawfsWriteFile_noPlace_iff h path (Nat.not_lt.mp hlen) hs]
      simp only [hlen, false_or, Option.some.injEq]
      constructor
      · rintro hn parentPath fileName rfl
        exact hn
      · intro hn
        exact hn parts.1 parts.2 rfl

/-- A read refuses every file of that name in a sector. -/
def NoRead (disk : Disk) (sector : Nat) (fileName : Bytes) (capacity : Nat) : Prop :=
  ∀ e, findEntry (disk sector) fileName = some e → e.type = clawfsFile →
    clawfsMaxFileSize < e.entryCount ∨ capacity < fileLength disk e

private theorem clawfsReadFile_fails_iff (h : Mounted m) (path : Bytes) (capacity : Nat) :
    (clawfsReadFile path capacity m).1.ok = false ↔
      ∀ parentPath fileName, splitFilePath path = some (parentPath, fileName) →
        lookupPath m.disk parentPath = 0 ∨
          NoRead m.disk (lookupPath m.disk parentPath) fileName capacity := by
  have hentry : (∀ parentPath fileName, splitFilePath path = some (parentPath, fileName) →
      lookupPath m.disk parentPath = 0 ∨
        NoRead m.disk (lookupPath m.disk parentPath) fileName capacity) ↔
      ∀ e, fileEntry m.disk path = some e →
        clawfsMaxFileSize < e.entryCount ∨ capacity < fileLength m.disk e := by
    simp only [fileEntry, NoRead, Option.bind_eq_some_iff, Option.ite_none_left_eq_some,
      Option.ite_none_right_eq_some, Option.some.injEq]
    grind
  rw [hentry, clawfsReadFile_mounted m h]
  cases fileEntry m.disk path with
  | none => simp only [reduceCtorEq, false_implies, implies_true]
  | some e =>
    simp only [Option.some.injEq, forall_eq']
    split
    · next hc => simp only [hc, true_or]
    · next hc =>
      split
      · next hl => simp only [hl, or_true]
      · next hl => simp only [hc, hl, or_self, Bool.true_eq_false]

/-- In every state of every run and for every path through a regular file, each operation leaves
the disk alone and fails exactly when the bytes of that file spell no way to a sector that would
take or hold the entry. -/
theorem paths_through_file_iff {total : Nat} (h : Reachable m total) (ht : total < 2 ^ 32) :
    (∀ parentPath dirName : CString, FilePath m.disk parentPath.val → ValidName dirName.val →
        ((clawfsMkdir parentPath.val dirName.val m).2.disk = m.disk ↔
          ∀ target, FileSpells m.disk parentPath.val target → Full (m.disk target))) ∧
    (∀ path name : CString, FilePath m.disk path.val →
        ((clawfsCreateFileIn path.val name.val m).2.disk = m.disk ↔
          (name.val = [] ∨ 28 ≤ name.val.length) ∨
            ∀ target, FileSpells m.disk path.val target → Full (m.disk target))) ∧
    (∀ (parentPath name : CString) (type : Nat), FilePath m.disk parentPath.val →
        ((clawfsRm parentPath.val name.val type m).2.disk = m.disk ↔
          ∀ target, FileSpells m.disk parentPath.val target →
            ∀ i, removalSlot (m.disk target) name.val type = some i →
              removalBlocked m.disk (m.disk target) i type = true)) ∧
    (∀ (path : CString) (data : Bytes),
      (∀ parentPath fileName, splitFilePath path.val = some (parentPath, fileName) →
        FilePath m.disk parentPath) →
        (((clawfsWriteFile path.val data m).1 = false ∧
            (clawfsWriteFile path.val data m).2.disk = m.disk) ↔
          clawfsMaxFileSize < data.length ∨
            ∀ parentPath fileName, splitFilePath path.val = some (parentPath, fileName) →
              ∀ target, FileSpells m.disk parentPath target →
                NoPlace m target fileName data.length)) ∧
    (∀ (path : CString) (capacity : Nat),
      (∀ parentPath fileName, splitFilePath path.val = some (parentPath, fileName) →
        FilePath m.disk parentPath) →
        ((clawfsReadFile path.val capacity m).1.ok = false ↔
          ∀ parentPath fileName, splitFilePath path.val = some (parentPath, fileName) →
            ∀ target, FileSpells m.disk parentPath target →
              NoRead m.disk target fileName capacity)) := by
  obtain ⟨-, dirs, depth, hs, -⟩ := h.sound ht
  have hm := hs.mounted
  refine ⟨?_, ?_, ?_, ?_, ?_⟩
  · intro parentPath dirName hfile hn
    rw [clawfsMkdir_created hm, created_disk_iff _ hn.1 hn.2.1 dirName.property]
    exact fileSpells_iff hfile fun target => Full (m.disk target)
  · intro path name hfile
    rw [clawfsCreateFileIn_disk_iff hm path.val name.property]
    exact or_congr_right (fileSpells_iff hfile fun target => Full (m.disk target))
  · intro parentPath name type hfile
    rw [clawfsRm_disk_iff hm parentPath.val name.val type]
    exact fileSpells_iff hfile fun target => ∀ i,
      removalSlot (m.disk target) name.val type = some i →
        removalBlocked m.disk (m.disk target) i type = true
  · intro path data hfile
    rw [clawfsWriteFile_refused_iff hm path data]
    refine or_congr_right (forall_congr' fun parentPath => forall_congr' fun fileName => ?_)
    exact forall_congr' fun hsplit => fileSpells_iff (hfile _ _ hsplit) fun target =>
      NoPlace m target fileName data.length
  · intro path capacity hfile
    rw [clawfsReadFile_fails_iff hm path.val capacity]
    refine forall_congr' fun parentPath => forall_congr' fun fileName => ?_
    exact forall_congr' fun hsplit => fileSpells_iff (hfile _ _ hsplit) fun target =>
      NoRead m.disk target fileName capacity

/-- Bytes that leave no slot of a sector unused. -/
def fullBytes : Bytes := List.replicate 441 65

/-- A fresh disk after `/proc/cpuinfo` was filled with them. -/
def filled : Machine := (clawfsWriteFile cpuinfoPath.val fullBytes (clawfsFormat blank).2).2

private theorem filled_facts :
    (Op.writeFile cpuinfoPath fullBytes).Valid (clawfsFormat blank).2.disk ∧
      (clawfsFormat blank).2.nextFreeSector + allocatedBy (clawfsFormat blank).2 filled < 2 ^ 32 ∧
      FilePath filled.disk cpuinfoPath.val ∧
      freeSlot (filled.disk (lookupPath filled.disk cpuinfoPath.val)) = none := by
  decide +kernel

/-- With these bytes in `/proc/cpuinfo`, `clawfs_mkdir` below it changes nothing. -/
theorem paths_through_file_iff_filled :
    (∃ total < 2 ^ 32, Reachable filled total) ∧
      FilePath filled.disk cpuinfoPath.val ∧
      (clawfsMkdir cpuinfoPath.val (cstring (ascii ['x'])).val filled).2.disk = filled.disk := by
  obtain ⟨hvalid, hroom, hfile, hfull⟩ := filled_facts
  have hreach : Reachable _ _ :=
    .step (.writeFile cpuinfoPath fullBytes) (.format blank rfl) hvalid trivial
  rw [Op.run, ← filled] at hreach
  rw [freeSlot_eq_none] at hfull
  have hspelled := (fileSpells_iff hfile fun target => Full (filled.disk target)).mp (.inr hfull)
  exact ⟨⟨_, hroom, hreach⟩, hfile, ((paths_through_file_iff hreach hroom).1 cpuinfoPath
    (cstring (ascii ['x'])) hfile (by decide)).mpr hspelled⟩

-- One evaluation of the formatted disk answers both of what follows.
private theorem throughFile_cpuinfo :
    FilePath (clawfsFormat blank).2.disk cpuinfoPath.val ∧
      ((clawfsMkdir cpuinfoPath.val (ascii ['x']) (clawfsFormat blank).2).2.disk 127).byte 0 ≠
        ((clawfsFormat blank).2.disk 127).byte 0 := by
  decide +kernel

/-- On a fresh disk, `clawfs_mkdir` below the regular file `/proc/cpuinfo` rewrites its sector. -/
theorem mkdir_below_file_writes :
    ∃ m total parentPath dirName, Reachable m total ∧ total < 2 ^ 32 ∧
      FilePath m.disk parentPath ∧ ValidName dirName ∧
      (clawfsMkdir parentPath dirName m).2.disk ≠ m.disk := by
  refine ⟨(clawfsFormat blank).2, (clawfsFormat blank).2.nextFreeSector, cpuinfoPath.val,
    ascii ['x'], .format blank rfl, nextFreeSector_clawfsFormat_lt rfl, throughFile_cpuinfo.1,
    by decide, ?_⟩
  intro heq
  exact throughFile_cpuinfo.2 (congrArg (fun disk => (disk 127).byte 0) heq)

end NasuaOS.ClawFS
