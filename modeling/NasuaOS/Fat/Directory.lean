import NasuaOS.Fat.Volume
import NasuaOS.Libc.Strings

/-!
# Reading directories and files

`src/kernel_64bit/src/system/filesystem/fat/fat.cpp:22–46,142–457,543–739`. Buffers that the caller
passes are results here: a call returns what it writes, or `none` where the source returns false.
Pointers are never null. The walk along a directory's cluster chain has fuel; the source loops
without a bound.
-/

namespace NasuaOS.Fat

open Base Libc

/-- `fat_entry_info`; the name without its terminator. -/
structure EntryInfo where
  name : Bytes
  size : Nat
  firstCluster : Nat
  directory : Bool
  deriving DecidableEq, Repr

/-- `fat_directory`. -/
structure Directory where
  fixedRoot : Bool
  cluster : Nat
  deriving DecidableEq, Repr

/-- `FAT_MAX_NAME`. -/
def fatMaxName : Nat := 128

/-- `to_lower`. -/
def toLower (c : UInt8) : UInt8 := if 65 ≤ c ∧ c ≤ 90 then c + 32 else c

/-- `name_equals`. -/
def nameEquals : Bytes → Bytes → Bool
  | a :: as, b :: bs => toLower a == toLower b && nameEquals as bs
  | [], [] => true
  | _, _ => false

/-- Up to `count` bytes of a name field, in lower case, up to the first space. -/
def readNameField (image : Store) (off : Nat) : Nat → Reading Bytes
  | 0 => .ok []
  | count + 1 => do
    let c ← image.get off
    if c = 32 then return []
    let rest ← readNameField image (off + 1) count
    return toLower c :: rest

/-- `short_name_to_string`. -/
def shortNameToString (image : Store) (entry : Nat) : Reading Bytes := do
  let base ← readNameField image entry 8
  if (← image.get (entry + 8)) = 32 then return (cstring base).val
  let extension ← readNameField image (entry + 8) 3
  return (cstring (base ++ 46 :: extension)).val

/-- Offsets of the characters in a long-name slot. -/
def longNameOffsets : List Nat := [1, 3, 5, 7, 9, 14, 16, 18, 20, 22, 24, 28, 30]

/-- The loop of `long_name_chunk`, with the index of the next character. -/
def longNameLoop (image : Store) (entry : Nat) :
    List Nat → Nat → (Nat → UInt8) → Reading (Nat → UInt8)
  | [], _, name => .ok name
  | offset :: rest, index, name =>
    if index ≥ fatMaxName - 1 then .ok name
    else do
      let value ← read16 image (entry + offset)
      if value = 0 ∨ value = 0xFFFF then
        if name index = 0 then return name
        longNameLoop image entry rest (index + 1) name
      else
        let c := if value < 128 then UInt8.ofNat value else 63
        longNameLoop image entry rest (index + 1) (fun k => if k = index then c else name k)

/-- `long_name_chunk`. -/
def longNameChunk (image : Store) (entry order : Nat) (name : Nat → UInt8) :
    Reading (Nat → UInt8) :=
  longNameLoop image entry longNameOffsets ((order - 1) * 13) name

/-- The long name collected so far, and whether there is one. -/
structure LongName where
  chars : Nat → UInt8
  hasLongName : Bool

/-- No long name. -/
def LongName.none : LongName := ⟨fun _ => 0, false⟩

/-- The collected name as a string; its last byte is a terminator. -/
def LongName.text (long : LongName) : Bytes :=
  (cstring ((List.range (fatMaxName - 1)).map long.chars)).val

/-- The name of an entry. `fat.cpp:290–302`. -/
def entryName (image : Store) (entry : Nat) (long : LongName) : Reading Bytes :=
  if long.hasLongName = true then .ok long.text else shortNameToString image entry

/-- What one slot of a directory means. -/
inductive SlotContent
  /-- The first unused slot: the directory ends. -/
  | last
  /-- Nothing to report; the long name collected so far. -/
  | skip (long : LongName)
  | entry (info : EntryInfo)

/-- The body of the loop over slots, up to the callback. `fat.cpp:243–308`. -/
def readSlot (image : Store) (entry : Nat) (long : LongName) : Reading SlotContent := do
  let first ← image.get entry
  if first = 0 then return .last
  if first = 0xE5 then return .skip { long with hasLongName := false }
  let attributes ← image.get (entry + 11)
  if attributes.toNat % 16 = 15 then
    let order := first.toNat % 32
    let chars := if first.toNat / 64 % 2 = 1 then fun _ => 0 else long.chars
    if order ≥ 1 then
      let chars ← longNameChunk image entry order chars
      return .skip ⟨chars, true⟩
    return .skip { long with chars := chars }
  if attributes.toNat / 8 % 2 = 1 then return .skip { long with hasLongName := false }
  let name ← entryName image entry long
  let size ← read32 image (entry + 28)
  let high ← read16 image (entry + 20)
  let low ← read16 image (entry + 26)
  return .entry {
    name := name
    size := size
    firstCluster := high * 2 ^ 16 + low
    directory := attributes.toNat / 16 % 2 = 1 }

section Walk

variable {σ : Type}

/-- A callback turns an entry and its data into new data, and says whether to go on. -/
abbrev Callback (σ : Type) : Type := EntryInfo → σ → σ × Bool

/-- The loop over the slots of a sector. The result is the callback's data and the long name to go on
with, or `none` when the walk is over. -/
def visitSlots (image : Store) (callback : Callback σ) :
    List Nat → LongName → σ → Reading (σ × Option LongName)
  | [], long, data => .ok (data, some long)
  | entry :: rest, long, data => do
    match ← readSlot image entry long with
    | .last => return (data, none)
    | .skip long => visitSlots image callback rest long data
    | .entry info =>
      match callback info data with
      | (data, false) => return (data, none)
      | (data, true) =>
        visitSlots image callback rest { long with hasLongName := false } data

/-- Offsets of the slots of a sector. -/
def slotOffsets (v : Volume) (data : Nat) : List Nat :=
  (List.range ((v.bytesPerSector + 31) / 32)).map fun k => data + 32 * k

/-- The loop over sectors; a sector outside the image ends the walk. -/
def visitSectors (v : Volume) (callback : Callback σ) :
    List Nat → LongName → σ → Reading (σ × Option LongName)
  | [], long, data => .ok (data, some long)
  | sector :: rest, long, data =>
    match sectorPointer v sector with
    | none => .ok (data, none)
    | some offset => do
      match ← visitSlots v.image callback (slotOffsets v offset) long data with
      | (data, none) => return (data, none)
      | (data, some long) => visitSectors v callback rest long data

/-- `count` sectors from `sector` on. -/
def sectorsFrom (sector count : Nat) : List Nat :=
  (List.range count).map fun s => (sector + s) % 2 ^ 32

/-- The loop over the clusters of a directory. -/
def visitClusters (v : Volume) (callback : Callback σ) :
    Nat → Nat → LongName → σ → Reading σ
  | 0, _, _, _ => .error .outOfFuel
  | fuel + 1, cluster, long, data =>
    if isLastCluster v cluster = true then .ok data
    else do
      match ← visitSectors v callback
          (sectorsFrom (clusterFirstSector v cluster) v.sectorsPerCluster) long data with
      | (data, none) => return data
      | (data, some long) =>
        let next ← nextCluster v cluster
        visitClusters v callback fuel next long data

/-- `iterate_directory`. -/
def iterateDirectory (fuel : Nat) (v : Volume) (directory : Directory)
    (callback : Callback σ) (data : σ) : Reading σ :=
  if directory.fixedRoot = true then
    Prod.fst <$>
      visitSectors v callback (sectorsFrom v.rootSector v.rootSectors) LongName.none data
  else visitClusters v callback fuel directory.cluster LongName.none data

end Walk

/-- `search_callback`: the data is the entry found. -/
def searchCallback (name : Bytes) (entry : EntryInfo) (_found : Option EntryInfo) :
    Option EntryInfo × Bool :=
  if nameEquals entry.name (name.take (fatMaxName - 1)) = true then (some entry, false)
  else (none, true)

/-- `root_directory`. -/
def rootDirectory (v : Volume) : Directory := ⟨decide (v.type ≠ .fat32), v.rootCluster⟩

/-- What `resolve_path` starts with. -/
def rootInfo (v : Volume) : EntryInfo := ⟨[slash], 0, v.rootCluster, true⟩

/-- The components that the cursor of `resolve_path` meets: slashes are skipped before each. -/
def componentsFrom : Nat → Bytes → List Bytes
  | 0, _ => []
  | fuel + 1, cursor =>
    let component := cursor.dropWhile (· == slash)
    if component = [] then []
    else
      component.takeWhile (· != slash) ::
        componentsFrom fuel (component.dropWhile (· != slash))

/-- Components of a path; there are fewer of them than bytes plus one. -/
def components (path : Bytes) : List Bytes := componentsFrom (path.length + 1) path

/-- The loop of `resolve_path` over the components; `none` when it returns false. -/
def resolveComponents (fuel : Nat) (v : Volume) :
    List Bytes → EntryInfo → Directory → Reading (Option (EntryInfo × Directory))
  | [], info, current => .ok (some (info, current))
  | name :: rest, _, current => do
    match ← iterateDirectory fuel v current (searchCallback name) none with
    | none => return none
    | some info =>
      if rest ≠ [] ∧ info.directory = false then return none
      let current := if info.directory = true then ⟨false, info.firstCluster⟩ else current
      resolveComponents fuel v rest info current

/-- `resolve_path`. -/
def resolvePath (fuel : Nat) (v : Volume) (path : Bytes) :
    Reading (Option (EntryInfo × Directory)) :=
  resolveComponents fuel v (components path) (rootInfo v) (rootDirectory v)

/-- `fat_stat`. -/
def fatStat (fuel : Nat) (v : Volume) (path : Bytes) : Reading (Option EntryInfo) := do
  let found ← resolvePath fuel v path
  return found.map Prod.fst

/-- The loop of `fat_read_file`; every round copies at least one byte. -/
def copyFile (v : Volume) : Nat → Nat → Nat → Reading (Option Bytes)
  | _, _, 0 => .ok (some [])
  | 0, _, _ + 1 => .error .outOfFuel
  | fuel + 1, cluster, remaining@(_ + 1) =>
    if isLastCluster v cluster = true then .ok none
    else
      match sectorPointer v (clusterFirstSector v cluster) with
      | none => .ok none
      | some data => do
        let chunk := min remaining (clusterSize v)
        let bytes ← v.image.copy data chunk
        let next ← nextCluster v cluster
        let rest ← copyFile v fuel next (remaining - chunk)
        return rest.map (bytes ++ ·)

/-- `fat_read_file`: the bytes written to the buffer, whose number is `read_size`. -/
def fatReadFile (fuel : Nat) (v : Volume) (path : Bytes) (bufferSize : Nat) :
    Reading (Option Bytes) := do
  match ← resolvePath fuel v path with
  | none => return none
  | some (info, _) =>
    if info.directory = true then return none
    if info.size > bufferSize then return none
    copyFile v info.size info.firstCluster info.size

/-- The loop of `fat_read_file_range` that skips clusters; `none` when it returns false. -/
def skipClusters (v : Volume) : Nat → Nat → Reading (Option Nat)
  | 0, cluster => .ok (some cluster)
  | count + 1, cluster =>
    if isLastCluster v cluster = true then .ok none
    else do
      let next ← nextCluster v cluster
      skipClusters v count next

/-- The loop of `fat_read_file_range` that copies; every round copies at least one byte. -/
def copyRange (v : Volume) : Nat → Nat → Nat → Nat → Reading (Option Bytes)
  | _, _, _, 0 => .ok (some [])
  | 0, _, _, _ + 1 => .error .outOfFuel
  | fuel + 1, cluster, clusterOffset, remaining@(_ + 1) =>
    if isLastCluster v cluster = true then .ok none
    else
      let firstSector := clusterFirstSector v cluster
      match sectorPointer v firstSector with
      | none => .ok none
      | some data =>
        if firstSector * v.bytesPerSector + clusterSize v > v.image.size then .ok none
        else do
          let chunk := min remaining (clusterSize v - clusterOffset)
          let bytes ← v.image.copy (data + clusterOffset) chunk
          if remaining - chunk > 0 then
            let next ← nextCluster v cluster
            let rest ← copyRange v fuel next 0 (remaining - chunk)
            return rest.map (bytes ++ ·)
          return some bytes

/-- `fat_read_file_range`: the bytes written to the buffer. -/
def fatReadFileRange (fuel : Nat) (v : Volume) (path : Bytes) (offset length : Nat) :
    Reading (Option Bytes) := do
  match ← resolvePath fuel v path with
  | none => return none
  | some (info, _) =>
    if info.directory = true ∨ offset > info.size ∨ length > info.size - offset then return none
    if length = 0 then return some []
    if clusterSize v = 0 then return none
    match ← skipClusters v (offset / clusterSize v) info.firstCluster with
    | none => return none
    | some cluster => copyRange v length cluster (offset % clusterSize v) length

/-- `listing_callback`: the data is the entries listed so far. -/
def listingCallback (maxEntries : Nat) (entry : EntryInfo) (entries : List EntryInfo) :
    List EntryInfo × Bool :=
  if nameEquals entry.name [46] = true ∨ nameEquals entry.name [46, 46] = true then (entries, true)
  else (entries ++ [entry], decide (entries.length + 1 < maxEntries))

/-- `fat_list_directory`. -/
def fatListDirectory (fuel : Nat) (v : Volume) (path : Bytes) (maxEntries : Nat) :
    Reading (List EntryInfo) :=
  if maxEntries = 0 then .ok []
  else do
    match ← resolvePath fuel v path with
    | none => return []
    | some (info, directory) =>
      if info.directory = false then return []
      iterateDirectory fuel v directory (listingCallback maxEntries) []

end NasuaOS.Fat
