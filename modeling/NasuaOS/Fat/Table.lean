import NasuaOS.Fat.Directory
import Mathlib.Order.Interval.Finset.Nat

/-!
# Well-formed volumes

What a FAT volume is, independently of the reader: the fields of its boot sector, the regions they
describe, and an allocation table that is one long little-endian number with an entry of 12, 16 or
32 bits for every cluster. On such a volume `fat_mount` finds the regions and `next_cluster` finds
the entries.
-/

namespace NasuaOS.Fat

open Base List

/-- The fields of the boot sector. -/
structure Bpb where
  bytesPerSector : Nat
  sectorsPerCluster : Nat
  reservedSectors : Nat
  fatCount : Nat
  rootEntryCount : Nat
  totalSectors : Nat
  sectorsPerFat : Nat
  rootCluster : Nat

namespace Bpb

/-- First sector of the root directory region. -/
def rootStart (b : Bpb) : Nat := b.reservedSectors + b.fatCount * b.sectorsPerFat

/-- Sectors of the root directory region. -/
def rootLength (b : Bpb) : Nat := b.rootEntryCount * 32 / b.bytesPerSector

/-- First sector of the data region. -/
def dataStart (b : Bpb) : Nat := b.rootStart + b.rootLength

/-- Number of clusters in the data region. -/
def clusterCount (b : Bpb) : Nat := (b.totalSectors - b.dataStart) / b.sectorsPerCluster

/-- The type of a volume depends on the number of its clusters alone. -/
def type (b : Bpb) : FatType :=
  if b.clusterCount < 4085 then .fat12 else if b.clusterCount < 65525 then .fat16 else .fat32

/-- Bytes of one cluster. -/
def clusterBytes (b : Bpb) : Nat := b.sectorsPerCluster * b.bytesPerSector

/-- Clusters are numbered from 2 on. -/
def Valid (b : Bpb) (cluster : Nat) : Prop := 2 ≤ cluster ∧ cluster < b.clusterCount + 2

instance (b : Bpb) (cluster : Nat) : Decidable (b.Valid cluster) :=
  inferInstanceAs (Decidable (_ ∧ _))

/-- Offset of the first byte of a cluster. -/
def clusterStart (b : Bpb) (cluster : Nat) : Nat :=
  (b.dataStart + (cluster - 2) * b.sectorsPerCluster) * b.bytesPerSector

end Bpb

/-- Bits of one table entry. -/
def entryBits : FatType → Nat
  | .fat12 => 12
  | .fat16 => 16
  | .fat32 => 32

/-- The first table as one number. -/
def tableNumber (image : Store) (b : Bpb) : Nat :=
  leNat image.byte (b.reservedSectors * b.bytesPerSector) (b.sectorsPerFat * b.bytesPerSector)

/-- The table entry of a cluster; the upper four bits of a 32-bit entry are reserved. -/
def tableEntry (image : Store) (b : Bpb) (cluster : Nat) : Nat :=
  let entry := tableNumber image b / 2 ^ (entryBits b.type * cluster) % 2 ^ entryBits b.type
  if b.type = .fat32 then entry % 2 ^ 28 else entry

/-- A well-formed volume: the boot sector holds the fields, they have legal values, the table has an
entry for every cluster, and every cluster lies in the image. -/
@[mk_iff] structure WellFormed (image : Store) (b : Bpb) : Prop where
  bootSector : 512 ≤ image.size
  bytesPerSector : leNat image.byte 11 2 = b.bytesPerSector
  sectorsPerCluster : leNat image.byte 13 1 = b.sectorsPerCluster
  reservedSectors : leNat image.byte 14 2 = b.reservedSectors
  fatCount : leNat image.byte 16 1 = b.fatCount
  rootEntryCount : leNat image.byte 17 2 = b.rootEntryCount
  totalSectors : leNat image.byte 19 2 = b.totalSectors ∨
    leNat image.byte 19 2 = 0 ∧ leNat image.byte 32 4 = b.totalSectors
  /-- FAT12 and FAT16 keep the table size in 16 bits, FAT32 in 32 bits with the root cluster. -/
  sectorsPerFat : b.type ≠ .fat32 ∧ leNat image.byte 22 2 = b.sectorsPerFat ∨
    b.type = .fat32 ∧ leNat image.byte 22 2 = 0 ∧ leNat image.byte 36 4 = b.sectorsPerFat ∧
      leNat image.byte 44 4 = b.rootCluster ∧ b.rootEntryCount = 0 ∧ 2 ≤ b.rootCluster
  sectorNonempty : 0 < b.bytesPerSector
  sectorSlots : 32 ∣ b.bytesPerSector
  clusterNonempty : 0 < b.sectorsPerCluster
  hasTable : 0 < b.fatCount ∧ 0 < b.sectorsPerFat
  rootWhole : b.bytesPerSector ∣ b.rootEntryCount * 32
  hasData : b.dataStart < b.totalSectors
  tableWhole : (b.clusterCount + 2) * entryBits b.type ≤ 8 * (b.sectorsPerFat * b.bytesPerSector)
  /-- Cluster numbers stay below the end marks. -/
  numbers : b.clusterCount + 2 ≤ endMark b.type
  clustersInside :
    (b.dataStart + b.clusterCount * b.sectorsPerCluster) * b.bytesPerSector ≤ image.size

instance (image : Store) (b : Bpb) : Decidable (WellFormed image b) :=
  decidable_of_iff' _ (wellFormed_iff image b)

/-- The volume that the reader should see. -/
def Bpb.volume (b : Bpb) (image : Store) : Volume where
  image := image
  bytesPerSector := b.bytesPerSector
  sectorsPerCluster := b.sectorsPerCluster
  reservedSectors := b.reservedSectors
  fatCount := b.fatCount
  sectorsPerFat := b.sectorsPerFat
  rootEntryCount := b.rootEntryCount
  totalSectors := b.totalSectors
  fatSector := b.reservedSectors
  rootSector := b.rootStart
  rootCluster := if b.type = .fat32 then b.rootCluster else 0
  rootSectors := b.rootLength
  dataSector := b.dataStart
  clusterCount := b.clusterCount
  type := b.type

variable {image : Store} {b : Bpb}

variable {cluster stop : Nat} {cs : List Nat}

/-- Clusters lie in the data region. -/
theorem Bpb.Valid.cluster_le (hc : b.Valid cluster) :
    b.dataStart + (cluster - 2) * b.sectorsPerCluster + b.sectorsPerCluster ≤
      b.dataStart + b.clusterCount * b.sectorsPerCluster := by
  have hle : cluster - 2 + 1 ≤ b.clusterCount := by
    have := hc.1
    have := hc.2
    omega
  have hmul := Nat.mul_le_mul_right b.sectorsPerCluster hle
  rw [Nat.add_mul, Nat.one_mul] at hmul
  omega

namespace WellFormed

section

variable (h : WellFormed image b)

include h

/-- Sector numbers of the volume have 32 bits. -/
theorem totalSectors_lt : b.totalSectors < 2 ^ 32 := by
  rcases h.totalSectors with ht | ⟨-, ht⟩
  · rw [← ht]
    exact Nat.lt_trans (leNat_lt image.byte 19 2) (by decide)
  · rw [← ht]
    exact leNat_lt image.byte 32 4

/-- The data region ends inside the volume. -/
theorem data_le : b.dataStart + b.clusterCount * b.sectorsPerCluster ≤ b.totalSectors := by
  have hdiv := Nat.div_mul_le_self (b.totalSectors - b.dataStart) b.sectorsPerCluster
  have hdata := h.hasData
  rw [Bpb.clusterCount]
  omega

private theorem rootSectors_eq :
    (b.rootEntryCount * 32 + (b.bytesPerSector - 1)) / b.bytesPerSector = b.rootLength := by
  obtain ⟨k, hk⟩ := h.rootWhole
  have hpos := h.sectorNonempty
  rw [Bpb.rootLength, hk, Nat.mul_add_div hpos, Nat.div_eq_of_lt (by omega), Nat.add_zero,
    Nat.mul_div_cancel_left _ hpos]

private theorem geometry_eq {rootCluster : Nat}
    (hroot : rootCluster = if b.type = .fat32 then b.rootCluster else 0) :
    geometry image b.bytesPerSector b.sectorsPerCluster b.reservedSectors b.fatCount
      b.rootEntryCount b.totalSectors b.sectorsPerFat rootCluster = some (b.volume image) := by
  have hdata := h.hasData
  have htotal := h.totalSectors_lt
  have hroom : b.rootStart < 2 ^ 32 := by
    rw [Bpb.dataStart] at hdata
    omega
  have hguard : ¬(b.sectorsPerFat = 0 ∨ b.totalSectors = 0) := by
    have hspf := h.hasTable.2
    omega
  have hcluster : ¬(b.type = .fat32 ∧ rootCluster < 2) := by
    rintro ⟨ht, hlt⟩
    rcases h.sectorsPerFat with ⟨hn, -⟩ | ⟨-, -, -, -, -, htwo⟩
    · exact hn ht
    · rw [hroot, if_pos ht] at hlt
      omega
  rw [geometry, if_neg hguard]
  dsimp only
  rw [h.rootSectors_eq, ← Bpb.rootStart, Nat.mod_eq_of_lt hroom, ← Bpb.dataStart,
    Nat.mod_eq_of_lt (Nat.lt_trans hdata htotal), if_neg (Nat.not_le.mpr hdata), ← Bpb.clusterCount]
  rw [show typeOf b.clusterCount = b.type from rfl, if_neg hcluster, hroot]
  rfl

/-- The reader mounts a well-formed volume and finds its regions. -/
theorem fatMount_eq : fatMount image = some (b.volume image) := by
  have hbps := h.sectorNonempty
  have hspc := h.clusterNonempty
  have hfat := h.hasTable
  have hguard : ¬(b.bytesPerSector = 0 ∨ b.sectorsPerCluster = 0 ∨ b.fatCount = 0) := by omega
  have htotal : (if leNat image.byte 19 2 = 0 then leNat image.byte 32 4
      else leNat image.byte 19 2) = b.totalSectors := by
    have hdata := h.hasData
    rcases h.totalSectors with ht | ⟨h0, ht⟩
    · rw [if_neg (by omega), ht]
    · rw [if_pos h0, ht]
  rw [fatMount, if_neg (Nat.not_lt.mpr h.bootSector)]
  dsimp only
  rw [h.bytesPerSector, h.sectorsPerCluster, h.reservedSectors, h.fatCount, h.rootEntryCount,
    htotal, if_neg hguard]
  rcases h.sectorsPerFat with ⟨ht, hspf⟩ | ⟨ht, h0, hspf, hroot, -, -⟩
  · have hne : ¬leNat image.byte 22 2 = 0 := by omega
    rw [if_neg hne, if_neg hne, hspf]
    exact h.geometry_eq (by rw [if_neg ht])
  · rw [if_pos h0, if_pos h0, hspf, hroot]
    exact h.geometry_eq (by rw [if_pos ht])

end

variable {cluster : Nat}

section

variable (h : WellFormed image b)

include h

/-- The reader finds the first sector of a cluster. -/
theorem clusterFirstSector_eq (hc : b.Valid cluster) : clusterFirstSector (b.volume image) cluster =
      b.dataStart + (cluster - 2) * b.sectorsPerCluster := by
  have hle := hc.cluster_le
  have hdata := h.data_le
  have htotal := h.totalSectors_lt
  exact Nat.mod_eq_of_lt (by
    change b.dataStart + (cluster - 2) * b.sectorsPerCluster < 2 ^ 32
    omega)

/-- Clusters lie in the image. -/
theorem cluster_inside (hc : b.Valid cluster) :
    b.clusterStart cluster + b.clusterBytes ≤ image.size := by
  have hle := Nat.mul_le_mul_right b.bytesPerSector hc.cluster_le
  rw [Nat.add_mul] at hle
  exact Nat.le_trans hle h.clustersInside

/-- Clusters are not end marks. -/
theorem not_isLastCluster (hc : b.Valid cluster) :
    ¬isLastCluster (b.volume image) cluster = true := by
  rw [isLastCluster, decide_eq_true_eq]
  have := hc.1
  have := hc.2
  have hn := h.numbers
  change ¬(cluster < 2 ∨ endMark b.type ≤ cluster)
  omega

private theorem table_inside :
    b.reservedSectors * b.bytesPerSector + b.sectorsPerFat * b.bytesPerSector ≤ image.size := by
  have hfat : b.sectorsPerFat ≤ b.fatCount * b.sectorsPerFat :=
    Nat.le_mul_of_pos_left _ h.hasTable.1
  have hle : b.reservedSectors + b.sectorsPerFat ≤
      b.dataStart + b.clusterCount * b.sectorsPerCluster := by
    rw [Bpb.dataStart, Bpb.rootStart]
    omega
  have hmul := Nat.mul_le_mul_right b.bytesPerSector hle
  rw [Nat.add_mul] at hmul
  exact Nat.le_trans hmul h.clustersInside

private theorem read_table {k m : Nat} (hkm : k + m ≤ fatSize (b.volume image)) :
    (b.volume image).image.word (fatOffset (b.volume image) + k) m =
      .ok (tableNumber image b / 256 ^ k % 256 ^ m) := by
  have hin := h.table_inside
  change k + m ≤ b.sectorsPerFat * b.bytesPerSector at hkm
  rw [tableNumber, leNat_div_mod image.byte _ hkm]
  apply Store.word_eq
  change b.reservedSectors * b.bytesPerSector + k + m ≤ image.size
  omega

private theorem entry_fits (hc : b.Valid cluster) :
    (cluster + 1) * entryBits b.type ≤ 8 * fatSize (b.volume image) := by
  have hle : cluster + 1 ≤ b.clusterCount + 2 := hc.2
  exact Nat.le_trans (Nat.mul_le_mul_right _ hle) h.tableWhole

omit h in
private theorem pow_bytes {m k : Nat} (hm : m = 8 * k) : 2 ^ m = 256 ^ k := by
  rw [hm, Nat.pow_mul]

private theorem nextCluster_fat32 (ht : b.type = .fat32) (hc : b.Valid cluster) :
    nextCluster (b.volume image) cluster = .ok (tableEntry image b cluster) := by
  have hin := h.entry_fits hc
  rw [ht, entryBits] at hin
  have hfit : cluster * 4 + 4 ≤ fatSize (b.volume image) := by omega
  have hpow : 2 ^ (32 * cluster) = 256 ^ (cluster * 4) := pow_bytes (by omega)
  rw [nextCluster, show (b.volume image).type = .fat32 from ht]
  rw [if_neg (Nat.not_lt.mpr hfit), read32, h.read_table hfit, tableEntry, if_pos ht, ht, entryBits,
    hpow]
  rfl

private theorem nextCluster_fat16 (ht : b.type = .fat16) (hc : b.Valid cluster) :
    nextCluster (b.volume image) cluster = .ok (tableEntry image b cluster) := by
  have hin := h.entry_fits hc
  rw [ht, entryBits] at hin
  have hfit : cluster * 2 + 2 ≤ fatSize (b.volume image) := by omega
  have hpow : 2 ^ (16 * cluster) = 256 ^ (cluster * 2) := pow_bytes (by omega)
  rw [nextCluster, show (b.volume image).type = .fat16 from ht]
  dsimp only
  rw [if_neg (Nat.not_lt.mpr hfit), read16, h.read_table hfit, tableEntry,
    if_neg (by rw [ht]; decide), ht, entryBits, hpow]
  rfl

private theorem nextCluster_fat12 (ht : b.type = .fat12) (hc : b.Valid cluster) :
    nextCluster (b.volume image) cluster = .ok (tableEntry image b cluster) := by
  have hin := h.entry_fits hc
  rw [ht, entryBits] at hin
  have hfit : cluster + cluster / 2 + 2 ≤ fatSize (b.volume image) := by omega
  rw [nextCluster, show (b.volume image).type = .fat12 from ht]
  dsimp only
  rw [if_neg (Nat.not_lt.mpr hfit), read16, h.read_table hfit, tableEntry,
    if_neg (by rw [ht]; decide), ht, entryBits]
  change Except.ok (if cluster % 2 = 1 then _ else _) = _
  congr 1
  by_cases hodd : cluster % 2 = 1
  · have hpow : 2 ^ (12 * cluster) = 256 ^ (cluster + cluster / 2) * 2 ^ 4 := by
      rw [← pow_bytes rfl, ← Nat.pow_add]
      congr 1
      omega
    rw [if_pos hodd, hpow, ← Nat.div_div_eq_div_mul, show 256 ^ 2 = 2 ^ 4 * 2 ^ 12 by rfl,
      Nat.mod_mul_right_div_self]
  · have hpow : 2 ^ (12 * cluster) = 256 ^ (cluster + cluster / 2) := pow_bytes (by omega)
    rw [if_neg hodd, hpow, Nat.mod_mod_of_dvd _ (by decide)]

/-- The reader finds the table entry of every cluster. -/
theorem nextCluster_eq (hc : b.Valid cluster) :
    nextCluster (b.volume image) cluster = .ok (tableEntry image b cluster) := by
  cases ht : b.type with
  | fat12 => exact h.nextCluster_fat12 ht hc
  | fat16 => exact h.nextCluster_fat16 ht hc
  | fat32 => exact h.nextCluster_fat32 ht hc

end

end WellFormed

/-- Following the table from `cluster` on passes the given clusters and arrives at `stop`. -/
def Links (image : Store) (b : Bpb) : Nat → List Nat → Nat → Prop
  | cluster, [], stop => cluster = stop
  | cluster, c :: cs, stop =>
    cluster = c ∧ b.Valid c ∧ Links image b (tableEntry image b c) cs stop

instance decidableLinks (image : Store) (b : Bpb) :
    (cluster : Nat) → (cs : List Nat) → (stop : Nat) → Decidable (Links image b cluster cs stop)
  | cluster, [], stop => inferInstanceAs (Decidable (cluster = stop))
  | _, c :: cs, stop =>
    have := decidableLinks image b (tableEntry image b c) cs stop
    inferInstanceAs (Decidable (_ ∧ _ ∧ _))

section

variable (h : Links image b cluster cs stop)

include h

/-- The clusters passed are clusters of the volume. -/
theorem Links.valid : ∀ c ∈ cs, b.Valid c := by
  induction cs generalizing cluster with
  | nil => simp
  | cons c cs ih =>
    intro d hd
    rcases mem_cons.mp hd with rfl | hd
    · exact h.2.1
    · exact ih h.2.2 d hd

private theorem Links.unique {stop' : Nat} {cs' : List Nat} (h' : Links image b cluster cs' stop')
    (hstop : ¬b.Valid stop) (hstop' : ¬b.Valid stop') : cs = cs' := by
  induction cs generalizing cluster cs' with
  | nil =>
    cases cs' with
    | nil => rfl
    | cons c' cs' =>
      exact absurd (h ▸ h'.1 ▸ h'.2.1) hstop
  | cons c cs ih =>
    cases cs' with
    | nil =>
      exact absurd (h' ▸ h.1 ▸ h.2.1) hstop'
    | cons c' cs' =>
      obtain ⟨rfl, -, hrest⟩ := h
      obtain ⟨rfl, -, hrest'⟩ := h'
      rw [ih hrest hrest']

private theorem Links.from_mem {c : Nat} (hc : c ∈ cs) :
    ∃ rest, rest.length < cs.length ∧ Links image b c (c :: rest) stop := by
  induction cs generalizing cluster with
  | nil => cases hc
  | cons d ds ih =>
    rcases mem_cons.mp hc with rfl | hc
    · exact ⟨ds, Nat.lt_succ_self _, rfl, h.2⟩
    · obtain ⟨rest, hlen, hrest⟩ := ih h.2.2 hc
      exact ⟨rest, Nat.lt_succ_of_lt hlen, hrest⟩

private theorem Links.nodup (hstop : ¬b.Valid stop) : cs.Nodup := by
  induction cs generalizing cluster with
  | nil => exact nodup_nil
  | cons c cs ih =>
    rw [nodup_cons]
    refine ⟨?_, ih h.2.2⟩
    intro hmem
    obtain ⟨rest, hlen, hrest⟩ := h.2.2.from_mem hmem
    have hself : Links image b c (c :: cs) stop := ⟨rfl, h.2⟩
    have heq := hself.unique hrest hstop hstop
    rw [cons.injEq] at heq
    rw [heq.2] at hlen
    exact absurd hlen (Nat.lt_irrefl _)

/-- A chain that ends passes at most as many clusters as there are. -/
theorem Links.length_le (hstop : ¬b.Valid stop) : cs.length ≤ b.clusterCount := by
  have hsub : cs.toFinset ⊆ Finset.Ico 2 (b.clusterCount + 2) := by
    intro c hc
    rw [Finset.mem_Ico]
    exact h.valid c (mem_toFinset.mp hc)
  have hcard := Finset.card_le_card hsub
  rw [toFinset_card_of_nodup (h.nodup hstop), Nat.card_Ico] at hcard
  omega

end

/-- An image that is zero but for some bytes. -/
def imageOf (size : Nat) (bytes : List (Nat × UInt8)) : Store :=
  ⟨size, fun off => (bytes.lookup off).getD 0⟩

/-- Bytes of the directory slot of a file `A` at `entry`. -/
def slotOfFileA (entry : Nat) (firstCluster size : Nat) : List (Nat × UInt8) :=
  (entry, 65) :: (range 10).map (fun k => (entry + 1 + k, (32 : UInt8))) ++
    [(entry + 26, leByte firstCluster 0), (entry + 27, leByte firstCluster 1),
      (entry + 28, leByte size 0), (entry + 29, leByte size 1)]

end NasuaOS.Fat
