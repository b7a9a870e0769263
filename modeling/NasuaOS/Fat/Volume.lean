import NasuaOS.Base.Reading

/-!
# FAT volumes and their allocation table

`src/kernel_64bit/src/system/filesystem/fat/fat.cpp:48–140,459–541`. A volume is an image in memory
and the geometry that `fat_mount` computes from its boot sector. Sector numbers are 32-bit and
wrap; byte offsets are 64-bit and cannot wrap here, since they are products of a 32-bit sector
number and a 16-bit sector size.
-/

namespace NasuaOS.Fat

open Base

/-- `fat_type`, without `FAT_TYPE_NONE`, which no mounted volume has. -/
inductive FatType
  | fat12
  | fat16
  | fat32
  deriving DecidableEq, Repr

/-- `fat_volume`. -/
structure Volume where
  image : Store
  bytesPerSector : Nat
  sectorsPerCluster : Nat
  reservedSectors : Nat
  fatCount : Nat
  sectorsPerFat : Nat
  rootEntryCount : Nat
  totalSectors : Nat
  fatSector : Nat
  rootSector : Nat
  rootCluster : Nat
  rootSectors : Nat
  dataSector : Nat
  clusterCount : Nat
  type : FatType

/-- `read16`. -/
def read16 (image : Store) (off : Nat) : Reading Nat := image.word off 2

/-- `read32`. -/
def read32 (image : Store) (off : Nat) : Reading Nat := image.word off 4

/-- The type that the number of clusters stands for. -/
def typeOf (clusterCount : Nat) : FatType :=
  if clusterCount < 4085 then .fat12
  else if clusterCount < 65525 then .fat16
  else .fat32

/-- The volume that `fat_mount` fills in from the fields of the boot sector; `none` when it returns
false. -/
def geometry (image : Store) (bytesPerSector sectorsPerCluster reservedSectors fatCount
    rootEntryCount totalSectors sectorsPerFat rootCluster : Nat) : Option Volume :=
  if sectorsPerFat = 0 ∨ totalSectors = 0 then none
  else
    let rootSectors := (rootEntryCount * 32 + (bytesPerSector - 1)) / bytesPerSector
    let rootSector := (reservedSectors + fatCount * sectorsPerFat) % 2 ^ 32
    let dataSector := (rootSector + rootSectors) % 2 ^ 32
    if dataSector ≥ totalSectors then none
    else
      let clusterCount := (totalSectors - dataSector) / sectorsPerCluster
      let type := typeOf clusterCount
      some {
        image, bytesPerSector, sectorsPerCluster, reservedSectors, fatCount, sectorsPerFat,
        rootEntryCount, totalSectors
        fatSector := reservedSectors
        rootSector, rootSectors, dataSector, clusterCount, type
        rootCluster := if type = .fat32 ∧ rootCluster < 2 then 2 else rootCluster }

/-- `fat_mount`; `none` when it returns false. The fields lie in the first 48 of at least 512
bytes. -/
def fatMount (image : Store) : Option Volume :=
  if image.size < 512 then none
  else
    let word := leNat image.byte
    let bytesPerSector := word 11 2
    let sectorsPerCluster := word 13 1
    let fatCount := word 16 1
    if bytesPerSector = 0 ∨ sectorsPerCluster = 0 ∨ fatCount = 0 then none
    else
      let totalSectors := if word 19 2 = 0 then word 32 4 else word 19 2
      let sectorsPerFat := if word 22 2 = 0 then word 36 4 else word 22 2
      let rootCluster := if word 22 2 = 0 then word 44 4 else 0
      geometry image bytesPerSector sectorsPerCluster (word 14 2) fatCount (word 17 2)
        totalSectors sectorsPerFat rootCluster

/-- `sector_pointer`: the offset of a sector inside the image. -/
def sectorPointer (v : Volume) (sector : Nat) : Option Nat :=
  if sector * v.bytesPerSector + v.bytesPerSector > v.image.size then none
  else some (sector * v.bytesPerSector)

/-- `cluster_first_sector`, for a cluster number of at least 2 as at every call. -/
def clusterFirstSector (v : Volume) (cluster : Nat) : Nat :=
  (v.dataSector + (cluster - 2) * v.sectorsPerCluster) % 2 ^ 32

/-- Offset of the first allocation table. -/
def fatOffset (v : Volume) : Nat := v.fatSector * v.bytesPerSector

/-- Bytes of one allocation table. -/
def fatSize (v : Volume) : Nat := v.sectorsPerFat * v.bytesPerSector

/-- `next_cluster`. -/
def nextCluster (v : Volume) (cluster : Nat) : Reading Nat :=
  match v.type with
  | .fat32 =>
    if cluster * 4 + 4 > fatSize v then .ok 0x0FFFFFFF
    else (· % 2 ^ 28) <$> read32 v.image (fatOffset v + cluster * 4)
  | .fat16 =>
    if cluster * 2 + 2 > fatSize v then .ok 0xFFFF
    else read16 v.image (fatOffset v + cluster * 2)
  | .fat12 =>
    let offset := cluster + cluster / 2
    if offset + 2 > fatSize v then .ok 0xFFF
    else
      (fun value => if cluster % 2 = 1 then value / 2 ^ 4 else value % 2 ^ 12) <$>
        read16 v.image (fatOffset v + offset)

/-- Smallest end-of-chain mark of a table. -/
def endMark : FatType → Nat
  | .fat32 => 0x0FFFFFF8
  | .fat16 => 0xFFF8
  | .fat12 => 0x0FF8

/-- `is_last_cluster`. -/
def isLastCluster (v : Volume) (cluster : Nat) : Bool :=
  decide (cluster < 2 ∨ endMark v.type ≤ cluster)

/-- Bytes of one cluster; a product of an 8-bit and a 16-bit number, which does not wrap. -/
def clusterSize (v : Volume) : Nat := v.sectorsPerCluster * v.bytesPerSector

end NasuaOS.Fat
