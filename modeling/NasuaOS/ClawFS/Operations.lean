import NasuaOS.ClawFS.Layout

/-!
# ClawFS operations

`src/kernel_64bit/src/system/filesystem/clawfs/clawfs.cpp`. The static allocator variables and
the disk are one explicit state; `faults` is the outcome of the coming disk requests, so that a
run without faults is the special case `noFaults`. Strings are the bytes before the
terminator, sector numbers are 32-bit values, and a null argument is not representable.
Messages on the screen are the returned `Report`.
-/

namespace NasuaOS.ClawFS

open Base Libc

/-- Disk contents, allocator variables, and which of the coming disk requests fail. -/
structure Machine where
  disk : Disk
  nextFreeSector : Nat
  allocatorInitialized : Bool
  faults : Nat → Bool

/-- Kernel code over the file system state. -/
abbrev ClawM := StateM Machine

/-- No coming request fails. -/
def noFaults : Nat → Bool := fun _ => false

/-- Replace the contents of one sector. -/
def writeDisk (disk : Disk) (lba : Nat) (buffer : Sector) : Disk :=
  fun k => if k = lba then buffer else disk k

/-- `Disk::read_sector`; `none` when it returns false. -/
def readSector (lba : Nat) : ClawM (Option Sector) := fun m =>
  (if m.faults 0 then none else some (m.disk lba), { m with faults := fun n => m.faults (n + 1) })

/-- `Disk::write_sector`; a failed write changes no sector. -/
def writeSector (lba : Nat) (buffer : Sector) : ClawM Bool := fun m =>
  (!m.faults 0, { m with
      disk := if m.faults 0 then m.disk else writeDisk m.disk lba buffer
      faults := fun n => m.faults (n + 1) })

/-- `next_path_token` with delimiter `/`: the token and what is left in the static buffer.
`clawfs.cpp:12–53`. -/
def nextPathToken (rest : Bytes) : Option (Bytes × Bytes) :=
  match rest.dropWhile (· == slash) with
  | [] => none
  | start => some (start.takeWhile (· != slash), (start.dropWhile (· != slash)).drop 1)

/-- Tokens that repeated calls return, at most `fuel` of them. -/
def tokensFrom : Nat → Bytes → List Bytes
  | 0, _ => []
  | fuel + 1, rest =>
    match nextPathToken rest with
    | none => []
    | some (token, rest) => token :: tokensFrom fuel rest

/-- Components of a path; a path has fewer of them than bytes plus one. -/
def pathTokens (path : Bytes) : List Bytes := tokensFrom (path.length + 1) path

/-- One past the last separator before `n`, or zero. `clawfs.cpp:607–611`. -/
def separatorBefore (path : Bytes) : Nat → Nat
  | 0 => 0
  | n + 1 => if path.getD n 0 = slash then n + 1 else separatorBefore path n

/-- `split_file_path`: parent path and file name. `clawfs.cpp:590–641`. -/
def splitFilePath (path : Bytes) : Option (Bytes × Bytes) :=
  if path = [] ∨ 255 < path.length ∨ path.getD (path.length - 1) 0 = slash then none
  else
    let separator := separatorBefore path path.length
    let nameLength := path.length - separator
    if nameLength = 0 ∨ 28 ≤ nameLength then none
    else
      let fileName := path.drop separator
      if separator = 0 then some ([slash], fileName)
      else
        let parentLength := if separator = 1 then 1 else separator - 1
        if 128 ≤ parentLength then none else some (path.take parentLength, fileName)

/-- Sectors the rebuild charges an entry with. `clawfs.cpp:96–100`. -/
def rebuildCount (e : CLAWFSEntry) : Nat :=
  if e.type = clawfsFile ∧ 512 < e.entryCount ∧ e.entryCount ≤ clawfsMaxFileSize then
    (e.entryCount + 511) / 512
  else 1

/-- Raise the allocator past one entry. `clawfs.cpp:102–106`. -/
def chargeEntry (e : CLAWFSEntry) : ClawM Unit := modify fun m =>
  let sectorEnd := (e.dataSector + rebuildCount e) % 2 ^ 32
  if m.nextFreeSector < sectorEnd then { m with nextFreeSector := sectorEnd } else m

/-- `update_allocator_from_directory(dir_sector, depth)` with `levels = 32 - depth`.
`clawfs.cpp:75–113`. -/
def updateAllocatorFromDirectory : Nat → Nat → ClawM Unit
  | 0, _ => pure ()
  | levels + 1, dirSector => do
    if dirSector = 0 then
      return
    match ← readSector dirSector with
    | none => return
    | some buffer =>
      (List.range slotCount).forM fun i => do
        let e := entryAt buffer i
        if used buffer i = false ∨ e.dataSector = 0 then
          return
        chargeEntry e
        if e.type = clawfsDirectory then
          updateAllocatorFromDirectory levels e.dataSector

/-- Depth at which the rebuild stops. -/
def rebuildLevels : Nat := 32

/-- First dynamically allocated sector. -/
def firstFreeSector : Nat := 112

/-- `next_free_sector = 112; update_allocator_from_directory(CLAWFS_ROOT_SECTOR, 0);
allocator_initialized = true`, which the kernel spells out twice. -/
def rebuildAllocator : ClawM Unit := do
  modify fun m => { m with nextFreeSector := firstFreeSector }
  updateAllocatorFromDirectory rebuildLevels clawfsRootSector
  modify fun m => { m with allocatorInitialized := true }

/-- `clawfs_exists`. `clawfs.cpp:558–588`. -/
def clawfsExists : ClawM Bool := do
  match ← readSector clawfsStartLba with
  | none => return false
  | some buffer =>
    if headerValid buffer = false then
      return false
    if (← get).allocatorInitialized = false then
      rebuildAllocator
    return true

/-- `initialize_allocator`. `clawfs.cpp:115–130`. -/
def initializeAllocator : ClawM Bool := do
  if (← get).allocatorInitialized = true then
    return true
  if (← clawfsExists) = false then
    return false
  rebuildAllocator
  return true

/-- `get_next_free_sector`. `clawfs.cpp:132–136`. -/
def getNextFreeSector : ClawM Nat := do
  let _ ← initializeAllocator
  let m ← get
  set { m with nextFreeSector := (m.nextFreeSector + 1) % 2 ^ 32 }
  return m.nextFreeSector

/-- The entry a directory buffer holds under a name; `none` also when its sector is zero,
since every caller takes the returned sector zero for absence. -/
def findEntry (buffer : Sector) (name : Bytes) : Option CLAWFSEntry :=
  (findSlot buffer name).bind fun i =>
    if (entryAt buffer i).dataSector = 0 then none else some (entryAt buffer i)

/-- `find_entry_in_dir`. `clawfs.cpp:140–170`. -/
def findEntryInDir (dirSector : Nat) (name : Bytes) : ClawM (Option CLAWFSEntry) := do
  match ← readSector dirSector with
  | none => return none
  | some buffer => return findEntry buffer name

/-- The component loop of `get_sector_by_path`. `clawfs.cpp:203–217`. -/
def walkTokens : Nat → List Bytes → ClawM Nat
  | currentDir, [] => pure currentDir
  | currentDir, token :: rest => do
    match ← findEntryInDir currentDir token with
    | none => return 0
    | some e => walkTokens e.dataSector rest

/-- `get_sector_by_path`, for paths that fit its 128-byte copy. `clawfs.cpp:174–218`. -/
def getSectorByPath (path : Bytes) : ClawM Nat := do
  if (← clawfsExists) = false then
    return 0
  if path = [slash] then
    return clawfsRootSector
  walkTokens clawfsRootSector (pathTokens path)

/-- What an operation prints. -/
inductive Report
  | invalidFileName
  | parentNotFound
  | pathNotFound
  | parentDirectoryNotFound
  | parentUnreadable
  | directoryUnreadable
  | directoryFull
  | dirCreated
  | fileCreated
  | directoryNotEmpty
  | updateFailed
  | removed
  | fileNotFound
  | directoryNotFound
  | silent
  deriving DecidableEq, Repr

/-- The printed text. -/
def Report.text : Report → String
  | .invalidFileName => "Invalid file name!\n"
  | .parentNotFound => "Parent not found!\n"
  | .pathNotFound => "Path not found!\n"
  | .parentDirectoryNotFound => "Parent directory not found!\n"
  | .parentUnreadable => "Failed to read parent directory!\n"
  | .directoryUnreadable => "Failed to read directory!\n"
  | .directoryFull => "Directory is full!\n"
  | .dirCreated => "Dir created.\n"
  | .fileCreated => "File created.\n"
  | .directoryNotEmpty => "Directory is not empty!\n"
  | .updateFailed => "Failed to update directory!\n"
  | .removed => "Removed successfully.\n"
  | .fileNotFound => "File not found!\n"
  | .directoryNotFound => "Directory not found!\n"
  | .silent => ""

/-- `setup_entry`: fill the slot in the buffer and clear the entry's own sector.
`clawfs.cpp:222–243`. -/
def setupEntry (buffer : Sector) (i : Nat) (name : Bytes) (type sector : Nat) :
    ClawM Sector := do
  let _ ← writeSector sector Buffer.zero
  return fillSlot buffer i name type sector

/-- `clawfs_mkdir`. `clawfs.cpp:385–431`. -/
def clawfsMkdir (parentPath dirName : Bytes) : ClawM Report := do
  let parentSector ← getSectorByPath parentPath
  if parentSector = 0 then
    return .parentNotFound
  match ← readSector parentSector with
  | none => return .parentUnreadable
  | some buffer =>
    match freeSlot buffer with
    | none => return .directoryFull
    | some i =>
      let sector ← getNextFreeSector
      let buffer ← setupEntry buffer i dirName clawfsDirectory sector
      let _ ← writeSector parentSector buffer
      return .dirCreated

/-- `clawfs_create_file_in`. `clawfs.cpp:435–500`. -/
def clawfsCreateFileIn (path name : Bytes) : ClawM Report := do
  if name = [] ∨ 28 ≤ name.length then
    return .invalidFileName
  let targetSector ← getSectorByPath path
  if targetSector = 0 then
    return .pathNotFound
  match ← readSector targetSector with
  | none => return .directoryUnreadable
  | some buffer =>
    match freeSlot buffer with
    | none => return .directoryFull
    | some i =>
      let sector ← getNextFreeSector
      let _ ← writeSector sector Buffer.zero
      let _ ← writeSector targetSector (fillSlot buffer i name clawfsFile sector)
      return .fileCreated

/-- `clawfs_rm`. `clawfs.cpp:874–968`. -/
def clawfsRm (parentPath name : Bytes) (type : Nat) : ClawM Report := do
  let parentSector ← getSectorByPath parentPath
  if parentSector = 0 then
    return .parentDirectoryNotFound
  match ← readSector parentSector with
  | none => return .parentUnreadable
  | some buffer =>
    match removalSlot buffer name type with
    | none =>
      return if type = clawfsFile then .fileNotFound
        else if type = clawfsDirectory then .directoryNotFound else .silent
    | some i =>
      if type = clawfsDirectory then
        match ← readSector (entryAt buffer i).dataSector with
        | none => return .directoryUnreadable
        | some dirBuffer =>
          if emptyDirectory dirBuffer = false then
            return .directoryNotEmpty
      if (← writeSector parentSector (clearSlot buffer i)) = false then
        return .updateFailed
      return .removed

/-- Sectors needed for a length, at least one. `clawfs.cpp:825–826`. -/
def sectorsFor (length : Nat) : Nat := if length = 0 then 1 else (length + 511) / 512

/-- Sector `k` of the contents, padded with zeros. `clawfs.cpp:842–851`. -/
def chunkAt (data : Bytes) (k : Nat) : Sector := Buffer.ofFn fun j => data.getD (512 * k + j) 0

/-- The write loop from `sector_index = k`, `count` iterations to go. `clawfs.cpp:840–857`. -/
def writeChunks (target : Nat) (data : Bytes) : Nat → Nat → ClawM Bool
  | 0, _ => pure true
  | count + 1, k => do
    if (← writeSector ((target + k) % 2 ^ 32) (chunkAt data k)) = false then
      return false
    writeChunks target data count (k + 1)

/-- Sectors for new contents: the old ones when they suffice, else fresh ones.
`clawfs.cpp:827–836`. -/
def chooseTarget (e : CLAWFSEntry) (required : Nat) : ClawM (Option Nat) := do
  if required ≤ sectorsFor e.entryCount then
    return some e.dataSector
  if (← initializeAllocator) = false then
    return none
  let m ← get
  if 2 ^ 32 - 1 - required < m.nextFreeSector then
    return none
  set { m with nextFreeSector := m.nextFreeSector + required }
  return some m.nextFreeSector

/-- Store contents for a found entry and patch its slot. `clawfs.cpp:816–869`. -/
def storeContents (parentSector : Nat) (directoryBuffer : Sector) (fileName : Bytes)
    (e : CLAWFSEntry) (data : Bytes) : ClawM Bool := do
  if e.type ≠ clawfsFile then
    return false
  if clawfsMaxFileSize < e.entryCount then
    return false
  match ← chooseTarget e (sectorsFor data.length) with
  | none => return false
  | some target =>
    if (← writeChunks target data (sectorsFor data.length) 0) = false then
      return false
    match fileSlot directoryBuffer fileName with
    | none => return false
    | some i => writeSector parentSector (patchSlot directoryBuffer i target data.length)

/-- `clawfs_write_file`. `clawfs.cpp:779–870`. -/
def clawfsWriteFile (path data : Bytes) : ClawM Bool := do
  if clawfsMaxFileSize < data.length then
    return false
  match splitFilePath path with
  | none => return false
  | some (parentPath, fileName) =>
    let parentSector ← getSectorByPath parentPath
    if parentSector = 0 then
      return false
    match ← readSector parentSector with
    | none => return false
    | some directoryBuffer =>
      match ← findEntryInDir parentSector fileName with
      | some e => storeContents parentSector directoryBuffer fileName e data
      | none =>
        let _ ← clawfsCreateFileIn parentPath fileName
        match ← readSector parentSector with
        | none => return false
        | some directoryBuffer =>
          match ← findEntryInDir parentSector fileName with
          | none => return false
          | some e => storeContents parentSector directoryBuffer fileName e data

/-- Result of a read: the returned flag, the stored length, the bytes put in the buffer. -/
structure ReadOutcome where
  ok : Bool
  length : Option Nat
  bytes : Bytes
  deriving DecidableEq, Repr

/-- `get_file_entry`. `clawfs.cpp:643–662`. -/
def getFileEntry (path : Bytes) : ClawM (Option CLAWFSEntry) := do
  match splitFilePath path with
  | none => return none
  | some (parentPath, fileName) =>
    let parentSector ← getSectorByPath parentPath
    if parentSector = 0 then
      return none
    match ← readSector parentSector with
    | none => return none
    | some _ =>
      match ← findEntryInDir parentSector fileName with
      | none => return none
      | some e => return if e.type = clawfsFile then some e else none

/-- The zero scan of a sector without a recorded length. `clawfs.cpp:693–696`. -/
def legacyLength (buffer : Sector) : Nat :=
  ((List.range 512).takeWhile fun k => buffer.byte k != 0).length

/-- The first `n` bytes of a sector. -/
def sectorPrefix (buffer : Sector) (n : Nat) : Bytes := (List.range n).map buffer.byte

/-- The copy loop from byte `512 * k` on. `clawfs.cpp:705–722`. -/
def readChunks (sector length : Nat) : Nat → Nat → Bytes → ClawM (Bool × Bytes)
  | 0, _, copied => pure (true, copied)
  | count + 1, k, copied => do
    match ← readSector ((sector + k) % 2 ^ 32) with
    | none => return (false, copied)
    | some buffer =>
      readChunks sector length count (k + 1)
        (copied ++ sectorPrefix buffer (min 512 (length - 512 * k)))

/-- `clawfs_read_file` with a non-null buffer. `clawfs.cpp:664–723`. -/
def clawfsReadFile (path : Bytes) (capacity : Nat) : ClawM ReadOutcome := do
  match ← getFileEntry path with
  | none => return ⟨false, none, []⟩
  | some e =>
    if clawfsMaxFileSize < e.entryCount then
      return ⟨false, none, []⟩
    let fileLength ← (do
      if e.entryCount ≠ 0 then
        return some e.entryCount
      match ← readSector e.dataSector with
      | none => return none
      | some legacy => return some (legacyLength legacy))
    match fileLength with
    | none => return ⟨false, none, []⟩
    | some fileLength =>
      if capacity < fileLength then
        return ⟨false, some fileLength, []⟩
      let (ok, bytes) ← readChunks e.dataSector fileLength ((fileLength + 511) / 512) 0 []
      return ⟨ok, some fileLength, bytes⟩

/-- `clawfs_get_file_size`. `clawfs.cpp:725–743`. -/
def clawfsGetFileSize (path : Bytes) : ClawM (Option Nat) := do
  match ← getFileEntry path with
  | none => return none
  | some e =>
    return if e.entryCount = 0 ∨ clawfsMaxFileSize < e.entryCount then none
      else some e.entryCount

/-- The copy loop of a range: `copied` holds the bytes from `offset` on, and every round copies at
least one more. `clawfs.cpp:756–774`. -/
def rangeChunks (sector offset length : Nat) : Nat → Bytes → ClawM (Bool × Bytes)
  | 0, copied => pure (true, copied)
  | rounds + 1, copied => do
    if length ≤ copied.length then
      return (true, copied)
    let fileOffset := offset + copied.length
    match ← readSector ((sector + fileOffset / 512) % 2 ^ 32) with
    | none => return (false, copied)
    | some buffer =>
      let chunkSize := min (512 - fileOffset % 512) (length - copied.length)
      rangeChunks sector offset length rounds
        (copied ++ (List.range chunkSize).map fun k => buffer.byte (fileOffset % 512 + k))

/-- `clawfs_read_file_range` with a non-null buffer; `none` when it returns false.
`clawfs.cpp:745–777`. -/
def clawfsReadFileRange (path : Bytes) (offset length : Nat) :
    ClawM (Option Bytes) := do
  match ← getFileEntry path with
  | none => return none
  | some e =>
    if e.entryCount = 0 ∨ clawfsMaxFileSize < e.entryCount ∨ e.entryCount < offset ∨
        e.entryCount - offset < length then
      return none
    let (ok, bytes) ← rangeChunks e.dataSector offset length length []
    return if ok then some bytes else none

/-- The ten directories of a fresh root and their sectors. `clawfs.cpp:278–287`. -/
def rootEntries : List Bytes :=
  [ascii ['b', 'i', 'n'], ascii ['s', 'b', 'i', 'n'], ascii ['d', 'e', 'v'],
    ascii ['m', 'n', 't'], ascii ['h', 'o', 'm', 'e'], ascii ['e', 't', 'c'],
    ascii ['v', 'a', 'r'], ascii ['l', 'i', 'b'], ascii ['p', 'r', 'o', 'c'],
    ascii ['t', 'm', 'p']]

/-- Set up root slot `i` and the following ones. -/
def setupRoot : List Bytes → Nat → Sector → ClawM Sector
  | [], _, buffer => pure buffer
  | name :: rest, i, buffer => do
    let buffer ← setupEntry buffer i name clawfsDirectory (102 + i)
    setupRoot rest (i + 1) buffer

/-- Directories made below the root, in order. `clawfs.cpp:294–313`. -/
def defaultDirectories : List (Bytes × Bytes) :=
  let home := ascii ['/', 'h', 'o', 'm', 'e']
  let user := ascii ['/', 'h', 'o', 'm', 'e', '/', 'u', 's', 'e', 'r']
  let var := ascii ['/', 'v', 'a', 'r']
  let lib := ascii ['/', 'l', 'i', 'b']
  [(home, ascii ['u', 's', 'e', 'r']), (home, ascii ['r', 'o', 'o', 't']),
    (user, ascii ['d', 'e', 's', 'k', 't', 'o', 'p']),
    (user, ascii ['d', 'o', 'c', 'u', 'm', 'e', 'n', 't', 's']),
    (user, ascii ['i', 'm', 'a', 'g', 'e', 's']), (user, ascii ['v', 'i', 'd', 'e', 'o', 's']),
    (user, ascii ['d', 'o', 'w', 'n', 'l', 'o', 'a', 'd', 's']),
    (user, ascii ['u', 'p', 'l', 'o', 'a', 'd', 's']), (user, ascii ['m', 'u', 's', 'i', 'c']),
    (user, ascii ['p', 'r', 'o', 'j', 'e', 'c', 't', 's']), (var, ascii ['l', 'o', 'g']),
    (var, ascii ['c', 'a', 'c', 'h', 'e']), (lib, ascii ['d', 'r', 'i', 'v', 'e', 'r', 's']),
    (lib, ascii ['m', 'o', 'd', 'u', 'l', 'e', 's']),
    (lib, ascii ['r', 'u', 'n', 't', 'i', 'm', 'e'])]

/-- Files made below the root, in order. `clawfs.cpp:316–322`. -/
def defaultFiles : List (Bytes × Bytes) :=
  let proc := ascii ['/', 'p', 'r', 'o', 'c']
  [(proc, ascii ['c', 'p', 'u', 'i', 'n', 'f', 'o']),
    (proc, ascii ['m', 'e', 'm', 'i', 'n', 'f', 'o']),
    (proc, ascii ['u', 'p', 't', 'i', 'm', 'e']),
    (proc, ascii ['k', '_', 'v', 'e', 'r', 's', 'i', 'o', 'n']),
    (ascii ['/', 'b', 'i', 'n'], ascii ['k', 'e', 'r', 'n', 'e', 'l', '_', 'b', 'i', 'n'])]

/-- Header and root of a fresh file system. `clawfs.cpp:251–289`. -/
def formatRoot : ClawM Unit := do
  modify fun m =>
    { m with nextFreeSector := firstFreeSector, allocatorInitialized := false }
  let _ ← writeSector clawfsStartLba headerBuffer
  let root ← setupRoot rootEntries 0 Buffer.zero
  let _ ← writeSector clawfsRootSector root

/-- `clawfs_format`. `clawfs.cpp:247–326`. -/
def clawfsFormat : ClawM Unit := do
  formatRoot
  defaultDirectories.forM fun p => do
    let _ ← clawfsMkdir p.1 p.2
  defaultFiles.forM fun p => do
    let _ ← clawfsCreateFileIn p.1 p.2

end NasuaOS.ClawFS
