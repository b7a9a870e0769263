import NasuaOS.ClawFS.Reboot

/-!
# Deletion tombstones

`src/kernel_64bit/src/system/filesystem/file_resolver/file_resolver.cpp:19–232`. The list of deleted
paths is kept in memory and in sector 1024. Paths are the bytes before the terminator and end inside
their 256-byte array. What `kmalloc` returns is part of the state: a buffer of 512 bytes is a sector,
and behind it lies memory that the loop over 60 tombstones of 257 bytes reads as well. What the same
loop writes behind the buffer reaches no disk and is left out, as is the output on screen and UART.
-/

namespace NasuaOS.Resolver

open Base Libc ClawFS

/-- `TOMBSTONE_SECTOR`. -/
def tombstoneSector : Nat := 1024

/-- `MAX_TOMBSTONES`. -/
def maxTombstones : Nat := 60

/-- `sizeof(deletion_tombstone_t)`. -/
def tombstoneSize : Nat := 257

/-- Offset of `deleted`, the size of `path`. -/
def deletedOffset : Nat := 256

/-- `deletion_tombstone_t`. -/
structure Tombstone where
  path : Bytes
  deleted : Bool
  deriving DecidableEq, Repr

/-- The file systems, `clawfs_mounted`, the first `deleted_count` of `deleted_files`, and what the
coming calls of `kmalloc` return: the memory from the block on, or nothing. -/
structure State where
  claw : Machine
  clawfsMounted : Bool
  deletedFiles : List Tombstone
  heap : Nat → Option (Nat → UInt8)

/-- Kernel code over the state of the resolver. -/
abbrev ResolverM := StateM State

/-- `Memory::heap::kmalloc`; `none` when it returns a null pointer. -/
def kmalloc : ResolverM (Option (Nat → UInt8)) := fun s =>
  (s.heap 0, { s with heap := fun n => s.heap (n + 1) })

/-- A call into ClawFS or the disk driver. -/
def onDisk {α : Type} (x : ClawM α) : ResolverM α := fun s =>
  ((x s.claw).1, { s with claw := (x s.claw).2 })

/-- Lay out the tombstone at an index; the part behind the sector is dropped. -/
def putTombstone (buffer : Sector) (t : Tombstone) (i : Nat) : Sector :=
  (buffer.putString (tombstoneSize * i) t.path).putByte (tombstoneSize * i + deletedOffset)
    (if t.deleted then 1 else 0)

/-- Lay out tombstones from an index on. -/
def putTombstones : Sector → List Tombstone → Nat → Sector
  | buffer, [], _ => buffer
  | buffer, t :: rest, i => putTombstones (putTombstone buffer t i) rest (i + 1)

/-- The sector that `file_resolver_save_tombstones` writes. -/
def tombstoneImage (ts : List Tombstone) : Sector :=
  putTombstones Buffer.zero (ts.take maxTombstones) 0

/-- `file_resolver_save_tombstones`. -/
def fileResolverSaveTombstones : ResolverM Unit := do
  match ← kmalloc with
  | none => return
  | some _ =>
    let s ← get
    let _ ← onDisk (writeSector tombstoneSector (tombstoneImage s.deletedFiles))

/-- The tombstone that the loop of `file_resolver_load_tombstones` finds at an index. A path is read
up to its flag; the `strcpy` of the source runs on over the flag when no byte before it is 0. -/
def tombstoneAt (image : Nat → UInt8) (i : Nat) : Option Tombstone :=
  if image (tombstoneSize * i) ≠ 0 ∧ image (tombstoneSize * i + deletedOffset) ≠ 0 then
    some ⟨(cstring ((List.range deletedOffset).map fun k => image (tombstoneSize * i + k))).val, true⟩
  else none

/-- The memory that a sector was read into. -/
def sectorInMemory (sector : Sector) (memory : Nat → UInt8) (k : Nat) : UInt8 :=
  if k < 512 then sector.byte k else memory k

/-- `file_resolver_load_tombstones`. -/
def fileResolverLoadTombstones : ResolverM Unit := do
  match ← kmalloc with
  | none => return
  | some memory =>
    match ← onDisk (readSector tombstoneSector) with
    | none => return
    | some sector =>
      modify fun s => { s with
        deletedFiles :=
          (List.range maxTombstones).filterMap (tombstoneAt (sectorInMemory sector memory)) }

/-- `file_resolver_init`. -/
def fileResolverInit : ResolverM Unit := do
  modify fun s => { s with clawfsMounted := false, deletedFiles := [] }
  fileResolverLoadTombstones

/-- `file_resolver_mount`. -/
def fileResolverMount (mount : Bool) : ResolverM Unit :=
  modify fun s => { s with clawfsMounted := mount }

/-- Mark the first tombstone of a path; `none` when there is none. -/
def markFirst (path : Bytes) : List Tombstone → Option (List Tombstone)
  | [] => none
  | t :: ts =>
    if t.path = path then some ({ t with deleted := true } :: ts)
    else (markFirst path ts).map (t :: ·)

/-- `file_resolver_mark_deleted`. -/
def fileResolverMarkDeleted (path : Bytes) : ResolverM Unit := fun s =>
  if path = [] then ((), s)
  else
    match markFirst path s.deletedFiles with
    | some ts => fileResolverSaveTombstones { s with deletedFiles := ts }
    | none =>
      if s.deletedFiles.length < maxTombstones then
        fileResolverSaveTombstones { s with deletedFiles := s.deletedFiles ++ [⟨path, true⟩] }
      else ((), s)

/-- `file_resolver_undelete`: the first tombstone of the path goes, the others move up. -/
def fileResolverUndelete (path : Bytes) : ResolverM Unit := fun s =>
  if path ≠ [] ∧ s.deletedFiles.any (·.path == path) then
    fileResolverSaveTombstones
      { s with deletedFiles := s.deletedFiles.eraseP (·.path == path) }
  else ((), s)

/-- `file_resolver_clear_deletions`. -/
def fileResolverClearDeletions : ResolverM Unit := do
  modify fun s => { s with deletedFiles := [] }
  fileResolverSaveTombstones

/-- `file_resolver_is_deleted`. -/
def fileResolverIsDeleted (path : Bytes) (s : State) : Bool :=
  !path.isEmpty && s.deletedFiles.any fun t => t.deleted && t.path == path

/-- The state after a reboot: static variables have their initial values, and the heap is new. -/
def reboot (heap : Nat → Option (Nat → UInt8)) (s : State) : State :=
  ⟨ClawFS.reboot s.claw, false, [], heap⟩

variable {s : State}

/-- The state with the tombstones on disk. -/
def State.saved (s : State) : State :=
  { s with
    claw.disk := writeDisk s.claw.disk tombstoneSector (tombstoneImage s.deletedFiles)
    heap := fun n => s.heap (n + 1) }

/-- Saving writes one sector, unless there is no memory. -/
theorem saveTombstones_faultless (h : s.claw.faults = noFaults) : (fileResolverSaveTombstones s).2 =
      if (s.heap 0).isSome then s.saved else { s with heap := fun n => s.heap (n + 1) } := by
  rw [fileResolverSaveTombstones, bind_apply, kmalloc]
  cases s.heap 0 with
  | none => rfl
  | some memory =>
    simp only [bind_apply, get_apply, onDisk, pure_apply]
    rw [writeSector_faultless]
    · rfl
    · exact h

/-- Loading replaces the list, unless there is no memory. -/
theorem loadTombstones_faultless (h : s.claw.faults = noFaults) :
    (fileResolverLoadTombstones s).2 =
      match s.heap 0 with
      | none => { s with heap := fun n => s.heap (n + 1) }
      | some memory =>
        { s with
          deletedFiles := (List.range maxTombstones).filterMap
            (tombstoneAt (sectorInMemory (s.claw.disk tombstoneSector) memory))
          heap := fun n => s.heap (n + 1) } := by
  rw [fileResolverLoadTombstones, bind_apply, kmalloc]
  cases s.heap 0 with
  | none => rfl
  | some memory =>
    simp only [bind_apply, onDisk]
    rw [readSector_faultless]
    · rfl
    · exact h

end NasuaOS.Resolver
