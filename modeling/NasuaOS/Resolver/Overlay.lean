import NasuaOS.Fat.Directory
import NasuaOS.Resolver.Tombstones

/-!
# System files in two file systems

`src/kernel_64bit/src/system/filesystem/file_resolver/file_resolver.cpp:234–547`. ClawFS lies over
the read-only FAT volume `rootfs`, which is there or not. Reading the volume can stop, and then the
call has no result. Paths are not null, and those that go to ClawFS fit its 128-byte copy. The
counters of `format_commands` are only printed and left out.
-/

namespace NasuaOS.Resolver

open Base Libc ClawFS Fat

/-- `file_source_t`. -/
inductive FileSource
  | none
  | clawfs
  | rootfs
  deriving DecidableEq, Repr

/-- `file_resolve_result_t`. -/
structure FileResolveResult where
  source : FileSource
  exist : Bool
  dataSector : Nat
  size : Nat
  deriving DecidableEq, Repr

/-- The result that `resolve_system_file` starts with. -/
def notFound : FileResolveResult := ⟨.none, false, 0, 0⟩

/-- `clawfs_file_exists`. -/
def clawfsFileExists (path : Bytes) : ResolverM Bool := do
  let sector ← onDisk (getSectorByPath path)
  return sector != 0

/-- `clawfs_get_file_info`: data sector and size; `none` when it returns false. The separator is one
past the byte that `strrchr` finds, and zero when it finds none. -/
def clawfsGetFileInfo (path : Bytes) : ResolverM (Option (Nat × Nat)) := do
  let sector ← onDisk (getSectorByPath path)
  if sector = 0 then
    return none
  let separator := separatorBefore path path.length
  if separator = 0 ∨ separator = 1 then
    return none
  let parentSector ← onDisk (getSectorByPath (path.take (separator - 1)))
  if parentSector = 0 then
    return none
  match ← onDisk (findEntryInDir parentSector (path.drop separator)) with
  | none => return none
  | some e =>
    if e.type ≠ clawfsFile then
      return none
    return some (e.dataSector, e.entryCount)

/-- The first part of `resolve_system_file`; `none` when it goes on to `rootfs`. -/
def resolveOverlay (path : Bytes) : ResolverM (Option FileResolveResult) := fun s =>
  if s.clawfsMounted = false then (none, s)
  else if fileResolverIsDeleted path s = true then (some notFound, s)
  else
    match clawfsFileExists path s with
    | (false, s) => (none, s)
    | (true, s) =>
      match clawfsGetFileInfo path s with
      | (none, s) => (none, s)
      | (some (dataSector, size), s) => (some ⟨.clawfs, true, dataSector, size⟩, s)

/-- The second part of `resolve_system_file`. -/
def resolveRootfs (fuel : Nat) (rootfs : Option Volume) (path : Bytes) :
    Reading FileResolveResult :=
  match rootfs with
  | none => .ok notFound
  | some v => do
    match ← fatStat fuel v path with
    | none => return notFound
    | some info =>
      if info.directory = true then
        return notFound
      return ⟨.rootfs, true, 0, info.size⟩

/-- `resolve_system_file`. -/
def resolveSystemFile (fuel : Nat) (rootfs : Option Volume) (path : Bytes) (s : State) :
    Reading (FileResolveResult × State) :=
  if path = [] then .ok (notFound, s)
  else
    match resolveOverlay path s with
    | (some result, s) => .ok (result, s)
    | (none, s) => do
      let result ← resolveRootfs fuel rootfs path
      return (result, s)

/-- `system_file_exists`. -/
def systemFileExists (fuel : Nat) (rootfs : Option Volume) (path : Bytes) (s : State) :
    Reading (Bool × State) := do
  let (result, s) ← resolveSystemFile fuel rootfs path s
  return (result.exist, s)

/-- The part of `copy_file_to_clawfs` that has found the source. -/
def copyFoundFile (fuel : Nat) (v : Volume) (src : Bytes) (info : EntryInfo)
    (dst : Bytes) (s : State) : Reading (Bool × State) :=
  match clawfsFileExists dst s with
  | (true, s) => .ok (true, (fileResolverUndelete dst s).2)
  | (false, s) =>
    if info.size > clawfsMaxFileSize then .ok (false, s)
    else
      match kmalloc s with
      | (none, s) => .ok (false, s)
      | (some _, s) => do
        match ← fatReadFile fuel v src info.size with
        | none => return (false, s)
        | some data =>
          if data.length ≠ info.size then
            return (false, s)
          match onDisk (clawfsWriteFile dst data) s with
          | (false, s) => return (false, s)
          | (true, s) => return (true, (fileResolverUndelete dst s).2)

/-- `copy_file_to_clawfs`. -/
def copyFileToClawfs (fuel : Nat) (rootfs : Option Volume) (src dst : Bytes) (s : State) :
    Reading (Bool × State) :=
  match rootfs with
  | none => .ok (false, s)
  | some v => do
    match ← fatStat fuel v src with
    | none => return (false, s)
    | some info =>
      if info.directory = true ∨ info.size = 0 then
        return (false, s)
      copyFoundFile fuel v src info dst s

/-- `/bin`. -/
def binDirectory : Bytes := ascii ['/', 'b', 'i', 'n']

/-- `/sbin`. -/
def sbinDirectory : Bytes := ascii ['/', 's', 'b', 'i', 'n']

/-- Paths of the commands in a directory: no directories, and no name with a dot in front. -/
def commandPaths (fuel : Nat) (v : Volume) (directory : Bytes) : Reading (List CString) := do
  let entries ← fatListDirectory fuel v directory 64
  let commands := entries.filter fun e => !e.directory && e.name.head? != some 46
  return commands.map fun e => cstring (directory ++ [slash] ++ e.name)

/-- The loop of `format_commands` over the commands of a directory. -/
def copyCommands (fuel : Nat) (v : Volume) : List CString → State → Reading State
  | [], s => .ok s
  | path :: rest, s => do
    let (_, s) ← copyFileToClawfs fuel (some v) path.val path.val s
    copyCommands fuel v rest s

/-- `format_commands`. -/
def formatCommands (fuel : Nat) (rootfs : Option Volume) (s : State) : Reading (Bool × State) :=
  match rootfs with
  | none => .ok (false, s)
  | some v => do
    let s := (fileResolverClearDeletions s).2
    let bin ← commandPaths fuel v binDirectory
    let s ← copyCommands fuel v bin s
    let sbin ← commandPaths fuel v sbinDirectory
    let s ← copyCommands fuel v sbin s
    return (true, s)

end NasuaOS.Resolver
