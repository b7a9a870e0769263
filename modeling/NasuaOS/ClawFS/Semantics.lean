import NasuaOS.Base.Stateful
import NasuaOS.ClawFS.Operations

/-!
# ClawFS operations on a mounted disk

On a mounted file system whose disk requests succeed, each operation is a pure function of the
disk and the allocator. This module states that function for every operation; all later
results use these equations and never look inside an operation again.
-/

namespace NasuaOS.ClawFS

open Base Libc List

/-- A valid header, an allocator in memory and a disk that does not fail. -/
structure Mounted (m : Machine) : Prop where
  header : headerValid (m.disk clawfsStartLba) = true
  initialized : m.allocatorInitialized = true
  faultless : m.faults = noFaults

/-- A write is seen at its own sector. -/
@[simp] theorem writeDisk_same (disk : Disk) (lba : Nat) (buffer : Sector) :
    writeDisk disk lba buffer lba = buffer := if_pos rfl

/-- A write is not seen at another sector. -/
theorem writeDisk_of_ne (disk : Disk) (lba k : Nat) (buffer : Sector) (h : k ≠ lba) :
    writeDisk disk lba buffer k = disk k := if_neg h

/-- A read without faults returns the sector and changes nothing. -/
theorem readSector_faultless (m : Machine) (h : m.faults = noFaults) (lba : Nat) :
    readSector lba m = (some (m.disk lba), m) := by
  cases m
  subst h
  rfl

/-- A write without faults changes one sector. -/
theorem writeSector_faultless (m : Machine) (h : m.faults = noFaults) (lba : Nat)
    (buffer : Sector) :
    writeSector lba buffer m = (true, { m with disk := writeDisk m.disk lba buffer }) := by
  cases m
  subst h
  rfl

private theorem writeSector_twice (m : Machine) (h : m.faults = noFaults) (a b : Nat)
    (x y : Sector) : writeSector b y (writeSector a x m).2 =
      (true, { m with disk := writeDisk (writeDisk m.disk a x) b y }) := by
  rw [writeSector_faultless m h, writeSector_faultless]
  exact h

/-- The allocator after one slot of a rebuild, given the rebuild of subdirectories. -/
def rebuildSlot (descend : Nat → Nat → Nat) (buffer : Sector) (next i : Nat) : Nat :=
  let e := entryAt buffer i
  if used buffer i = false ∨ e.dataSector = 0 then next
  else
    let charged := max next ((e.dataSector + rebuildCount e) % 2 ^ 32)
    if e.type = clawfsDirectory then descend e.dataSector charged else charged

/-- The allocator after a rebuild below `dir`. -/
def rebuildFrom (disk : Disk) : Nat → Nat → Nat → Nat
  | 0, _, next => next
  | levels + 1, dir, next =>
    if dir = 0 then next
    else (range slotCount).foldl (rebuildSlot (rebuildFrom disk levels) (disk dir)) next

private theorem updateAllocatorFromDirectory_faultless (m : Machine) (h : m.faults = noFaults)
    (levels dir : Nat) : updateAllocatorFromDirectory levels dir m =
      ((), { m with nextFreeSector := rebuildFrom m.disk levels dir m.nextFreeSector }) := by
  induction levels generalizing dir m with
  | zero => rfl
  | succ levels ih =>
    rw [updateAllocatorFromDirectory, rebuildFrom]
    by_cases hd : dir = 0
    · simp [hd]
    · simp only [hd, if_false, bind_apply, readSector_faultless m h, forM_apply]
      congr 1
      -- The loop state stays the machine with only its allocator changed.
      generalize range slotCount = slots
      have loop (next : Nat) : foldl (fun t i =>
            ((if used (m.disk dir) i = false ∨ (entryAt (m.disk dir) i).dataSector = 0 then
                (pure PUnit.unit : ClawM PUnit)
              else do
                chargeEntry (entryAt (m.disk dir) i)
                if (entryAt (m.disk dir) i).type = clawfsDirectory then
                  updateAllocatorFromDirectory levels (entryAt (m.disk dir) i).dataSector
                else pure PUnit.unit) t).2) { m with nextFreeSector := next } slots =
          { m with nextFreeSector :=
              slots.foldl (rebuildSlot (rebuildFrom m.disk levels) (m.disk dir)) next } := by
        induction slots generalizing next with
        | nil => rfl
        | cons i slots ihs =>
          simp only [foldl_cons]
          rw [← ihs]
          congr 1
          simp only [rebuildSlot, chargeEntry]
          split
          · rfl
          · have charge : (if next < ((entryAt (m.disk dir) i).dataSector +
                rebuildCount (entryAt (m.disk dir) i)) % 2 ^ 32 then
                { m with nextFreeSector := ((entryAt (m.disk dir) i).dataSector +
                  rebuildCount (entryAt (m.disk dir) i)) % 2 ^ 32 }
                else { m with nextFreeSector := next } : Machine) =
              { m with nextFreeSector := max next (((entryAt (m.disk dir) i).dataSector +
                  rebuildCount (entryAt (m.disk dir) i)) % 2 ^ 32) } := by
              split
              · next hlt => rw [Nat.max_eq_right (Nat.le_of_lt hlt)]
              · next hge => rw [Nat.max_eq_left (Nat.not_lt.mp hge)]
            simp only [bind_apply, modify_apply, charge]
            split
            · rw [ih]
              exact h
            · rfl
      exact loop m.nextFreeSector

/-- The allocator a rebuild of the whole disk leaves. -/
def rebuilt (disk : Disk) : Nat :=
  rebuildFrom disk rebuildLevels clawfsRootSector firstFreeSector

/-- `rebuildAllocator` on a faultless disk. -/
theorem rebuildAllocator_faultless (m : Machine) (h : m.faults = noFaults) : rebuildAllocator m =
      ((), { m with nextFreeSector := rebuilt m.disk, allocatorInitialized := true }) := by
  simp only [rebuildAllocator, bind_apply, modify_apply]
  rw [updateAllocatorFromDirectory_faultless]
  · rfl
  · exact h

/-- Sector that a component list leads to from `dir`; zero when a component is missing. -/
def lookupTokens (disk : Disk) : Nat → List Bytes → Nat
  | dir, [] => dir
  | dir, token :: rest =>
    match findEntry (disk dir) token with
    | none => 0
    | some e => lookupTokens disk e.dataSector rest

/-- Sector that a path leads to. -/
def lookupPath (disk : Disk) (path : Bytes) : Nat :=
  lookupTokens disk clawfsRootSector (pathTokens path)

/-- A mounted file system exists, and checking it changes nothing. -/
theorem clawfsExists_mounted (m : Machine) (h : Mounted m) : clawfsExists m = (true, m) := by
  simp [clawfsExists, readSector_faultless m h.faultless, h.header, h.initialized]

private theorem walkTokens_faultless (m : Machine) (h : m.faults = noFaults) (dir : Nat)
    (tokens : List Bytes) :
    walkTokens dir tokens m = (lookupTokens m.disk dir tokens, m) := by
  induction tokens generalizing dir with
  | nil => rfl
  | cons token rest ih =>
    simp only [walkTokens, lookupTokens, findEntryInDir, bind_apply, readSector_faultless m h,
      pure_apply]
    cases findEntry (m.disk dir) token with
    | none => rfl
    | some e => exact ih e.dataSector

/-- Path resolution on a mounted disk. -/
theorem getSectorByPath_mounted (m : Machine) (h : Mounted m) (path : Bytes) :
    getSectorByPath path m = (lookupPath m.disk path, m) := by
  simp only [getSectorByPath, bind_apply, clawfsExists_mounted m h, Bool.true_eq_false, if_false]
  by_cases hp : path = [slash]
  · subst hp
    rfl
  · simp only [hp, if_false]
    exact walkTokens_faultless m h.faultless _ _

/-- Directory lookup without faults. -/
theorem findEntryInDir_faultless (m : Machine) (h : m.faults = noFaults) (dir : Nat)
    (name : Bytes) : findEntryInDir dir name m = (findEntry (m.disk dir) name, m) := by
  simp [findEntryInDir, readSector_faultless m h]

private theorem initializeAllocator_initialized (m : Machine) (h : m.allocatorInitialized = true) :
    initializeAllocator m = (true, m) := by
  simp [initializeAllocator, h]

private theorem getNextFreeSector_initialized (m : Machine) (h : m.allocatorInitialized = true) :
    getNextFreeSector m =
      (m.nextFreeSector, { m with nextFreeSector := (m.nextFreeSector + 1) % 2 ^ 32 }) := by
  simp [getNextFreeSector, initializeAllocator_initialized m h]

/-- The state after slot `i` of directory `parent` received a new entry. -/
def addEntry (m : Machine) (parent i : Nat) (name : Bytes) (type : Nat) : Machine :=
  { m with
    disk := writeDisk (writeDisk m.disk m.nextFreeSector Buffer.zero) parent
      (fillSlot (m.disk parent) i name type m.nextFreeSector)
    nextFreeSector := (m.nextFreeSector + 1) % 2 ^ 32 }

/-- The state after slot `i` of directory `parent` was freed. -/
def dropEntry (m : Machine) (parent i : Nat) : Machine :=
  { m with disk := writeDisk m.disk parent (clearSlot (m.disk parent) i) }

private theorem clawfsMkdir_mounted (m : Machine) (h : Mounted m) (parentPath dirName : Bytes) :
    clawfsMkdir parentPath dirName m =
      if lookupPath m.disk parentPath = 0 then (.parentNotFound, m)
      else match freeSlot (m.disk (lookupPath m.disk parentPath)) with
        | none => (.directoryFull, m)
        | some i =>
          (.dirCreated, addEntry m (lookupPath m.disk parentPath) i dirName clawfsDirectory) := by
  simp only [clawfsMkdir, bind_apply, getSectorByPath_mounted m h]
  split
  · rfl
  · simp only [bind_apply, readSector_faultless m h.faultless]
    cases freeSlot (m.disk (lookupPath m.disk parentPath)) with
    | none => rfl
    | some i =>
      simp only [bind_apply, getNextFreeSector_initialized m h.initialized, setupEntry, pure_apply]
      rw [writeSector_twice]
      · rfl
      · exact h.faultless

/-- Effect of `clawfs_create_file_in`. -/
theorem clawfsCreateFileIn_mounted (m : Machine) (h : Mounted m) (path name : Bytes) :
    clawfsCreateFileIn path name m =
      if name = [] ∨ 28 ≤ name.length then (.invalidFileName, m)
      else if lookupPath m.disk path = 0 then (.pathNotFound, m)
      else match freeSlot (m.disk (lookupPath m.disk path)) with
        | none => (.directoryFull, m)
        | some i => (.fileCreated, addEntry m (lookupPath m.disk path) i name clawfsFile) := by
  simp only [clawfsCreateFileIn]
  split
  · rfl
  · simp only [bind_apply, getSectorByPath_mounted m h]
    split
    · rfl
    · simp only [bind_apply, readSector_faultless m h.faultless]
      cases freeSlot (m.disk (lookupPath m.disk path)) with
      | none => rfl
      | some i =>
        simp only [bind_apply, getNextFreeSector_initialized m h.initialized, pure_apply]
        rw [writeSector_twice]
        · rfl
        · exact h.faultless

/-- The state after an entry was asked for in the directory at a path: its first free slot, if it
has one, holds the entry. -/
def created (m : Machine) (path name : Bytes) (type : Nat) : Machine :=
  if lookupPath m.disk path = 0 then m
  else match freeSlot (m.disk (lookupPath m.disk path)) with
    | none => m
    | some i => addEntry m (lookupPath m.disk path) i name type

/-- State that `clawfs_mkdir` leaves. -/
theorem clawfsMkdir_created (h : Mounted m) (parentPath dirName : Bytes) :
    (clawfsMkdir parentPath dirName m).2 = created m parentPath dirName clawfsDirectory := by
  rw [clawfsMkdir_mounted m h, created]
  split
  · rfl
  · cases freeSlot (m.disk (lookupPath m.disk parentPath)) with
    | none | some i => rfl

/-- State that `clawfs_create_file_in` leaves. -/
theorem clawfsCreateFileIn_created (h : Mounted m) (path name : Bytes) :
    (clawfsCreateFileIn path name m).2 =
      if name = [] ∨ 28 ≤ name.length then m else created m path name clawfsFile := by
  rw [clawfsCreateFileIn_mounted m h, created]
  split
  · rfl
  split
  · rfl
  · cases freeSlot (m.disk (lookupPath m.disk path)) with
    | none | some i => rfl

/-- A removal is refused: the slot names a directory that still has entries. -/
def removalBlocked (disk : Disk) (buffer : Sector) (i type : Nat) : Bool :=
  decide (type = clawfsDirectory) && !emptyDirectory (disk (entryAt buffer i).dataSector)

/-- State that `clawfs_rm` leaves. -/
theorem clawfsRm_mounted (m : Machine) (h : Mounted m) (parentPath name : Bytes) (type : Nat) :
    (clawfsRm parentPath name type m).2 =
      if lookupPath m.disk parentPath = 0 then m
      else match removalSlot (m.disk (lookupPath m.disk parentPath)) name type with
        | none => m
        | some i =>
          if removalBlocked m.disk (m.disk (lookupPath m.disk parentPath)) i type then m
          else dropEntry m (lookupPath m.disk parentPath) i := by
  simp only [clawfsRm, bind_apply, getSectorByPath_mounted m h]
  split
  · rfl
  · simp only [bind_apply, readSector_faultless m h.faultless]
    cases removalSlot (m.disk (lookupPath m.disk parentPath)) name type with
    | none => rfl
    | some i =>
      simp only [removalBlocked]
      by_cases ht : type = clawfsDirectory
      · simp only [ht, if_true, bind_apply, readSector_faultless m h.faultless, decide_true,
          Bool.true_and]
        cases emptyDirectory
            (m.disk (entryAt (m.disk (lookupPath m.disk parentPath)) i).dataSector) with
        | false => rfl
        | true => simp [writeSector_faultless m h.faultless, dropEntry]
      · simp [ht, writeSector_faultless m h.faultless, dropEntry]

/-- The disk after the write loop. -/
def writeRange (target : Nat) (data : Bytes) :
    Nat → Nat → Disk → Disk
  | 0, _, disk => disk
  | count + 1, k, disk =>
    writeRange target data count (k + 1) (writeDisk disk ((target + k) % 2 ^ 32) (chunkAt data k))

private theorem writeChunks_faultless (m : Machine) (h : m.faults = noFaults) (target : Nat)
    (data : Bytes) (count k : Nat) : writeChunks target data count k m =
      (true, { m with disk := writeRange target data count k m.disk }) := by
  induction count generalizing k m with
  | zero => rfl
  | succ count ih =>
    simp only [writeChunks, bind_apply, writeSector_faultless m h, Bool.true_eq_false, if_false]
    rw [ih]
    · rfl
    · exact h

/-- Every sector after the write loop: its chunk inside the range, unchanged outside. -/
theorem writeRange_apply (target : Nat) (data : Bytes) (count k : Nat)
    (disk : Disk) (h : target + k + count ≤ 2 ^ 32) (s : Nat) :
    writeRange target data count k disk s =
      if target + k ≤ s ∧ s < target + k + count then chunkAt data (s - target) else disk s := by
  induction count generalizing k disk with
  | zero => rw [writeRange, if_neg (by omega)]
  | succ count ih =>
    rw [writeRange, ih (k + 1) _ (by omega), Nat.mod_eq_of_lt (by omega)]
    by_cases hs : s = target + k
    · subst hs
      rw [if_neg (by omega), if_pos (by omega), writeDisk_same, Nat.add_sub_cancel_left]
    · rw [writeDisk_of_ne _ _ _ _ hs]
      by_cases hr : target + k ≤ s ∧ s < target + k + (count + 1)
      · rw [if_pos (by omega), if_pos hr]
      · rw [if_neg (by omega), if_neg hr]

/-- First sector for new contents and the allocator after choosing it. -/
def targetFor (next : Nat) (e : CLAWFSEntry) (required : Nat) : Option (Nat × Nat) :=
  if required ≤ sectorsFor e.entryCount then some (e.dataSector, next)
  else if 2 ^ 32 - 1 - required < next then none
  else some (next, next + required)

/-- Choosing sectors with the allocator in memory. -/
theorem chooseTarget_initialized (m : Machine) (h : m.allocatorInitialized = true)
    (e : CLAWFSEntry) (required : Nat) :
    chooseTarget e required m =
      match targetFor m.nextFreeSector e required with
      | none => (none, m)
      | some (target, next) => (some target, { m with nextFreeSector := next }) := by
  simp only [chooseTarget, targetFor]
  split
  · rfl
  · simp only [bind_apply, initializeAllocator_initialized m h, Bool.true_eq_false, if_false]
    change (if 2 ^ 32 - 1 - required < m.nextFreeSector then (pure none : ClawM (Option Nat))
      else do
        set { m with nextFreeSector := m.nextFreeSector + required }
        pure (some m.nextFreeSector)) m = _
    by_cases hf : 2 ^ 32 - 1 - required < m.nextFreeSector
    · rw [if_pos hf, if_pos hf]
      rfl
    · rw [if_neg hf, if_neg hf]
      rfl

/-- Effect of storing contents for a found entry. -/
theorem storeContents_initialized (m : Machine) (h : m.faults = noFaults)
    (hi : m.allocatorInitialized = true) (parent : Nat) (buffer : Sector) (name : Bytes)
    (e : CLAWFSEntry) (data : Bytes) :
    storeContents parent buffer name e data m =
      if e.type ≠ clawfsFile ∨ clawfsMaxFileSize < e.entryCount then (false, m)
      else match targetFor m.nextFreeSector e (sectorsFor data.length) with
        | none => (false, m)
        | some (target, next) =>
          match fileSlot buffer name with
          | none => (false, { m with
              disk := writeRange target data (sectorsFor data.length) 0 m.disk
              nextFreeSector := next })
          | some i => (true, { m with
              disk := writeDisk (writeRange target data (sectorsFor data.length) 0 m.disk) parent
                (patchSlot buffer i target data.length)
              nextFreeSector := next }) := by
  simp only [storeContents]
  by_cases ht : e.type = clawfsFile
  · by_cases hl : clawfsMaxFileSize < e.entryCount
    · simp [ht, hl]
    · simp only [ht, hl, ne_eq, not_true_eq_false, if_false, or_self, bind_apply,
        chooseTarget_initialized m hi]
      cases targetFor m.nextFreeSector e (sectorsFor data.length) with
      | none => rfl
      | some p =>
        obtain ⟨target, next⟩ := p
        simp only [bind_apply]
        rw [writeChunks_faultless]
        · simp only [Bool.true_eq_false, if_false]
          cases fileSlot buffer name with
          | none => rfl
          | some i =>
            simp only
            rw [writeSector_faultless]
            exact h
        · exact h
  · simp [ht]

/-- Creating a file keeps the allocator in memory and the disk faultless. -/
theorem clawfsCreateFileIn_keeps (m : Machine) (h : Mounted m) (path name : Bytes) :
    (clawfsCreateFileIn path name m).2.faults = noFaults ∧
      (clawfsCreateFileIn path name m).2.allocatorInitialized = true := by
  rw [clawfsCreateFileIn_mounted m h]
  split
  · exact ⟨h.faultless, h.initialized⟩
  · split
    · exact ⟨h.faultless, h.initialized⟩
    · split
      · exact ⟨h.faultless, h.initialized⟩
      · exact ⟨h.faultless, h.initialized⟩

/-- Effect of `clawfs_write_file`, in terms of its create and store halves. -/
theorem clawfsWriteFile_mounted (m : Machine) (h : Mounted m) (path data : Bytes) :
    clawfsWriteFile path data m =
      if clawfsMaxFileSize < data.length then (false, m)
      else match splitFilePath path with
        | none => (false, m)
        | some (parentPath, fileName) =>
          let parent := lookupPath m.disk parentPath
          if parent = 0 then (false, m)
          else match findEntry (m.disk parent) fileName with
            | some e => storeContents parent (m.disk parent) fileName e data m
            | none =>
              let m' := (clawfsCreateFileIn parentPath fileName m).2
              match findEntry (m'.disk parent) fileName with
              | none => (false, m')
              | some e => storeContents parent (m'.disk parent) fileName e data m' := by
  simp only [clawfsWriteFile]
  split
  · rfl
  · cases splitFilePath path with
    | none => rfl
    | some p =>
      obtain ⟨parentPath, fileName⟩ := p
      simp only [bind_apply, getSectorByPath_mounted m h]
      split
      · rfl
      · simp only [bind_apply, readSector_faultless m h.faultless,
          findEntryInDir_faultless m h.faultless]
        cases findEntry (m.disk (lookupPath m.disk parentPath)) fileName with
        | some e => rfl
        | none =>
          have hk := clawfsCreateFileIn_keeps m h parentPath fileName
          simp only [bind_apply, readSector_faultless _ hk.1, findEntryInDir_faultless _ hk.1]
          cases findEntry ((clawfsCreateFileIn parentPath fileName m).2.disk
              (lookupPath m.disk parentPath)) fileName with
          | none | some e => rfl

/-- Entry that `get_file_entry` finds. -/
def fileEntry (disk : Disk) (path : Bytes) : Option CLAWFSEntry :=
  (splitFilePath path).bind fun p =>
    if lookupPath disk p.1 = 0 then none
    else (findEntry (disk (lookupPath disk p.1)) p.2).bind fun e =>
      if e.type = clawfsFile then some e else none

/-- Length of a file: the recorded one, or the zero scan of its sector. -/
def fileLength (disk : Disk) (e : CLAWFSEntry) : Nat :=
  if e.entryCount = 0 then legacyLength (disk e.dataSector) else e.entryCount

/-- The bytes of `count` sectors from chunk `k` on, cut at the file length. -/
def fileChunks (disk : Disk) (sector length : Nat) : Nat → Nat → Bytes
  | 0, _ => []
  | count + 1, k =>
    sectorPrefix (disk ((sector + k) % 2 ^ 32)) (min 512 (length - 512 * k)) ++
      fileChunks disk sector length count (k + 1)

/-- Contents of a file entry. -/
def fileContents (disk : Disk) (e : CLAWFSEntry) : Bytes :=
  fileChunks disk e.dataSector (fileLength disk e) ((fileLength disk e + 511) / 512) 0

private theorem fileChunks_eq_map (disk : Disk) (sector length count k : Nat) :
    fileChunks disk sector length count k =
      (range (min (512 * count) (length - 512 * k))).map fun j =>
        (disk ((sector + (512 * k + j) / 512) % 2 ^ 32)).byte ((512 * k + j) % 512) := by
  induction count generalizing k with
  | zero => simp [fileChunks]
  | succ count ih =>
    have hsplit : min (512 * (count + 1)) (length - 512 * k) =
        min 512 (length - 512 * k) + min (512 * count) (length - 512 * (k + 1)) := by omega
    rw [fileChunks, ih, hsplit, range_add, map_append, map_map]
    congr 1
    · rw [sectorPrefix]
      apply map_congr_left
      intro j hj
      rw [mem_range] at hj
      have hdiv : (512 * k + j) / 512 = k := by omega
      have hmod : (512 * k + j) % 512 = j := by omega
      rw [hdiv, hmod]
    · apply map_congr_left
      intro j hj
      rw [mem_range] at hj
      have hfull : min 512 (length - 512 * k) = 512 := by omega
      simp only [Function.comp_apply, hfull, Nat.mul_succ, Nat.add_assoc]

/-- Contents of a file, byte by byte. -/
theorem fileContents_eq_map (disk : Disk) (e : CLAWFSEntry) :
    fileContents disk e = (range (fileLength disk e)).map fun j =>
      (disk ((e.dataSector + j / 512) % 2 ^ 32)).byte (j % 512) := by
  rw [fileContents, fileChunks_eq_map]
  simp only [Nat.mul_zero, Nat.zero_add, Nat.sub_zero]
  congr 2
  omega

private theorem readChunks_faultless (m : Machine) (h : m.faults = noFaults)
    (sector length count k : Nat) (copied : Bytes) :
    readChunks sector length count k copied m =
      ((true, copied ++ fileChunks m.disk sector length count k), m) := by
  induction count generalizing k copied with
  | zero => simp [readChunks, fileChunks]
  | succ count ih =>
    simp only [readChunks, bind_apply, readSector_faultless m h, fileChunks]
    rw [ih, append_assoc]

/-- `get_file_entry` finds the entry of the file and changes nothing. -/
theorem getFileEntry_mounted (m : Machine) (h : Mounted m) (path : Bytes) :
    getFileEntry path m = (fileEntry m.disk path, m) := by
  simp only [getFileEntry, fileEntry]
  cases splitFilePath path with
  | none => rfl
  | some p =>
    obtain ⟨parentPath, fileName⟩ := p
    simp only [bind_apply, getSectorByPath_mounted m h, Option.bind_some]
    split
    · rfl
    · simp only [bind_apply, readSector_faultless m h.faultless,
        findEntryInDir_faultless m h.faultless]
      cases findEntry (m.disk (lookupPath m.disk parentPath)) fileName with
      | none | some e => rfl

/-- Effect of `clawfs_read_file`. -/
theorem clawfsReadFile_mounted (m : Machine) (h : Mounted m) (path : Bytes) (capacity : Nat) :
    clawfsReadFile path capacity m =
      (match fileEntry m.disk path with
        | none => ⟨false, none, []⟩
        | some e =>
          if clawfsMaxFileSize < e.entryCount then ⟨false, none, []⟩
          else if capacity < fileLength m.disk e then ⟨false, some (fileLength m.disk e), []⟩
          else ⟨true, some (fileLength m.disk e), fileContents m.disk e⟩, m) := by
  simp only [clawfsReadFile, bind_apply, getFileEntry_mounted m h]
  cases fileEntry m.disk path with
  | none => rfl
  | some e =>
    simp only
    split
    · rfl
    · by_cases hz : e.entryCount = 0
      · simp only [hz, ne_eq, not_true_eq_false, if_false, bind_apply, if_true, fileLength,
          readSector_faultless m h.faultless, pure_apply, fileContents]
        split
        · rfl
        · simp [readChunks_faultless m h.faultless]
      · simp only [hz, ne_eq, not_false_eq_true, if_true, bind_apply, if_false, fileLength,
          pure_apply, fileContents]
        split
        · rfl
        · simp [readChunks_faultless m h.faultless]

end NasuaOS.ClawFS
