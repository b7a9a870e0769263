import NasuaOS.Fat.Lookup

/-!
# Contents of files

The data of a file is the data of the clusters of its chain, cut to its size. `fat_read_file` and
`fat_read_file_range` walk along the chain independently of one another; both return this data.
-/

namespace NasuaOS.Fat

open Base Libc List

variable {image : Store} {b : Bpb}

/-- Bytes of a cluster. -/
def clusterData (image : Store) (b : Bpb) (cluster : Nat) : Bytes :=
  image.slice (b.clusterStart cluster) b.clusterBytes

/-- Bytes of the clusters of a chain, one after another. -/
def chainData (image : Store) (b : Bpb) (cs : List Nat) : Bytes :=
  cs.flatMap (clusterData image b)

private theorem chainData_cons (cluster : Nat) (cs : List Nat) : chainData image b (cluster :: cs) =
      image.slice (b.clusterStart cluster) b.clusterBytes ++ chainData image b cs := rfl

private theorem drop_chainData (cs : List Nat) (n : Nat) :
    (chainData image b cs).drop (n * b.clusterBytes) = chainData image b (cs.drop n) := by
  induction n generalizing cs with
  | zero => rw [Nat.zero_mul, drop_zero, drop_zero]
  | succ n ih =>
    cases cs with
    | nil => simp [chainData]
    | cons c cs =>
      have hlen := Store.length_slice image (b.clusterStart c) b.clusterBytes
      rw [drop_succ_cons, ← ih, chainData_cons, Nat.succ_mul, Nat.add_comm, ← drop_drop,
        drop_left' hlen]

namespace WellFormed

private theorem clusterBytes_pos (h : WellFormed image b) : 0 < b.clusterBytes :=
  Nat.mul_pos h.clusterNonempty h.sectorNonempty

variable {cluster stop : Nat} {cs : List Nat}

section

variable (h : WellFormed image b)

include h

private theorem clusterPointer_eq (hc : b.Valid cluster) :
    sectorPointer (b.volume image) (clusterFirstSector (b.volume image) cluster) =
      some (b.clusterStart cluster) := by
  have hin := h.cluster_inside hc
  have hle : b.bytesPerSector ≤ b.clusterBytes := Nat.le_mul_of_pos_left _ h.clusterNonempty
  rw [h.clusterFirstSector_eq hc]
  apply if_neg
  change ¬b.clusterStart cluster + b.bytesPerSector > image.size
  omega

section

variable (hlinks : Links image b cluster cs stop)

include hlinks

private theorem copyFile_eq {fuel remaining : Nat} (hcover : remaining ≤ cs.length * b.clusterBytes)
    (hfuel : remaining ≤ fuel) : copyFile (b.volume image) fuel cluster remaining =
      .ok (some ((chainData image b cs).take remaining)) := by
  induction cs generalizing cluster fuel remaining with
  | nil =>
    have hzero : remaining = 0 := by simpa using hcover
    rw [hzero, copyFile]
    rfl
  | cons c cs ih =>
    obtain ⟨rfl, hc, hrest⟩ := hlinks
    cases remaining with
    | zero =>
      rw [copyFile]
      rfl
    | succ r =>
      obtain ⟨fuel, rfl⟩ : ∃ k, fuel = k + 1 := ⟨fuel - 1, by omega⟩
      have hin := h.cluster_inside hc
      have hpos := h.clusterBytes_pos
      rw [length_cons, Nat.succ_mul] at hcover
      rw [copyFile, if_neg (h.not_isLastCluster hc), h.clusterPointer_eq hc]
      change (image.copy (b.clusterStart cluster) (min (r + 1) b.clusterBytes) >>= _) = _
      rw [Store.copy_eq (by omega), h.nextCluster_eq hc]
      change (copyFile (b.volume image) fuel (tableEntry image b cluster)
        (r + 1 - min (r + 1) b.clusterBytes) >>= _) = _
      rw [ih hrest (by omega) (by omega), chainData_cons, Store.take_slice_append]
      rfl

private theorem skipClusters_eq {count : Nat} (hcount : count ≤ cs.length) :
    ∃ next, skipClusters (b.volume image) count cluster = .ok (some next) ∧
      Links image b next (cs.drop count) stop := by
  induction count generalizing cs cluster with
  | zero => exact ⟨cluster, rfl, hlinks⟩
  | succ count ih =>
    cases cs with
    | nil => simp at hcount
    | cons c cs =>
      obtain ⟨rfl, hc, hrest⟩ := hlinks
      rw [skipClusters, if_neg (h.not_isLastCluster hc), h.nextCluster_eq hc]
      exact ih hrest (by simpa using hcount)

private theorem copyRange_eq {fuel offset remaining : Nat} (hoffset : offset < b.clusterBytes)
    (hcover : offset + remaining ≤ cs.length * b.clusterBytes) (hfuel : remaining ≤ fuel) :
    copyRange (b.volume image) fuel cluster offset remaining =
      .ok (some (((chainData image b cs).drop offset).take remaining)) := by
  induction cs generalizing cluster fuel offset remaining with
  | nil =>
    have hzero : remaining = 0 := by
      rw [length_nil, Nat.zero_mul] at hcover
      omega
    rw [hzero, copyRange, take_zero]
  | cons c cs ih =>
    obtain ⟨rfl, hc, hrest⟩ := hlinks
    cases remaining with
    | zero => rw [copyRange, take_zero]
    | succ r =>
      obtain ⟨fuel, rfl⟩ : ∃ k, fuel = k + 1 := ⟨fuel - 1, by omega⟩
      have hin := h.cluster_inside hc
      have hwhole : ¬clusterFirstSector (b.volume image) cluster * (b.volume image).bytesPerSector +
          clusterSize (b.volume image) > (b.volume image).image.size := by
        rw [h.clusterFirstSector_eq hc]
        change ¬b.clusterStart cluster + b.clusterBytes > image.size
        omega
      have hdata : ((chainData image b (cluster :: cs)).drop offset).take (r + 1) =
          image.slice (b.clusterStart cluster + offset) (min (r + 1) (b.clusterBytes - offset)) ++
            (chainData image b cs).take (r + 1 - min (r + 1) (b.clusterBytes - offset)) := by
        rw [chainData_cons, drop_append_of_le_length (by simpa using hoffset.le),
          Store.drop_slice _ _ hoffset.le, Store.take_slice_append]
      rw [length_cons, Nat.succ_mul] at hcover
      rw [copyRange, if_neg (h.not_isLastCluster hc), hdata]
      dsimp only
      rw [h.clusterPointer_eq hc]
      dsimp only
      rw [if_neg hwhole]
      change (image.copy (b.clusterStart cluster + offset)
        (min (r + 1) (b.clusterBytes - offset)) >>= _) = _
      rw [Store.copy_eq (by omega), h.nextCluster_eq hc]
      change (if r + 1 - min (r + 1) (b.clusterBytes - offset) > 0 then
        (copyRange (b.volume image) fuel (tableEntry image b cluster) 0
          (r + 1 - min (r + 1) (b.clusterBytes - offset)) >>= _) else _) = _
      split
      · rw [ih hrest h.clusterBytes_pos (by omega) (by omega), drop_zero]
        rfl
      · next hdone =>
        rw [Nat.eq_zero_of_not_pos hdone, take_zero, append_nil]
        rfl

private theorem readRange_eq {offset length : Nat} (hlength : 0 < length)
    (hcover : offset + length ≤ cs.length * b.clusterBytes) :
    ∃ next, skipClusters (b.volume image) (offset / b.clusterBytes) cluster = .ok (some next) ∧
      copyRange (b.volume image) length next (offset % b.clusterBytes) length =
        .ok (some (((chainData image b cs).drop offset).take length)) := by
  have hpos := h.clusterBytes_pos
  have hdiv : offset / b.clusterBytes < cs.length :=
    (Nat.div_lt_iff_lt_mul hpos).mpr (by omega)
  obtain ⟨next, hskip, hnext⟩ := h.skipClusters_eq hlinks hdiv.le
  refine ⟨next, hskip, ?_⟩
  have hsplit : offset / b.clusterBytes * b.clusterBytes + offset % b.clusterBytes = offset :=
    Nat.div_add_mod' offset b.clusterBytes
  have hleft : offset % b.clusterBytes + length ≤
      (cs.drop (offset / b.clusterBytes)).length * b.clusterBytes := by
    rw [length_drop, Nat.sub_mul]
    omega
  rw [h.copyRange_eq hnext (Nat.mod_lt _ hpos) hleft le_rfl, ← drop_chainData,
    drop_drop, hsplit]

end

end

end WellFormed

section Calls

variable {path : Bytes} {info : EntryInfo} {last : Directory} {cs : List Nat}
  {stop fuel bufferSize offset length : Nat}

private theorem fatReadFile_eq (h : WellFormed image b)
    (hresolve : resolvePath fuel (b.volume image) path = .ok (some (info, last)))
    (hfile : info.directory = false) (hchain : Links image b info.firstCluster cs stop)
    (hcover : info.size ≤ cs.length * b.clusterBytes) (hbuffer : info.size ≤ bufferSize) :
    fatReadFile fuel (b.volume image) path bufferSize =
      .ok (some ((chainData image b cs).take info.size)) := by
  rw [fatReadFile, hresolve]
  change (if info.directory = true then _ else if info.size > bufferSize then _ else _) = _
  rw [if_neg (by simp [hfile]), if_neg (Nat.not_lt.mpr hbuffer)]
  exact h.copyFile_eq hchain hcover le_rfl

private theorem fatReadFileRange_inside (h : WellFormed image b)
    (hresolve : resolvePath fuel (b.volume image) path = .ok (some (info, last)))
    (hfile : info.directory = false) (hchain : Links image b info.firstCluster cs stop)
    (hcover : info.size ≤ cs.length * b.clusterBytes) (hin : offset + length ≤ info.size) :
    fatReadFileRange fuel (b.volume image) path offset length =
      .ok (some ((((chainData image b cs).take info.size).drop offset).take length)) := by
  have hguard : ¬(info.directory = true ∨ offset > info.size ∨ length > info.size - offset) := by
    rw [hfile]
    simp only [Bool.false_eq_true, false_or]
    omega
  rw [fatReadFileRange, hresolve, drop_take, take_take, Nat.min_eq_left (by omega)]
  change (if _ then _ else if length = 0 then _ else if b.clusterBytes = 0 then _ else _) = _
  rw [if_neg hguard]
  split
  · next hzero =>
    rw [hzero, take_zero]
    rfl
  · next hlength =>
    obtain ⟨next, hskip, hcopy⟩ := h.readRange_eq hchain (Nat.pos_of_ne_zero hlength)
      (Nat.le_trans hin hcover)
    rw [if_neg h.clusterBytes_pos.ne']
    change (skipClusters (b.volume image) (offset / b.clusterBytes) info.firstCluster >>= _) = _
    rw [hskip]
    exact hcopy

private theorem fatReadFileRange_outside {v : Volume}
    (hresolve : resolvePath fuel v path = .ok (some (info, last)))
    (hout : info.size < offset + length) :
    fatReadFileRange fuel v path offset length = .ok none := by
  rw [fatReadFileRange, hresolve]
  change (if info.directory = true ∨ offset > info.size ∨ length > info.size - offset then _
    else _) = _
  rw [if_pos (by omega)]
  rfl

end Calls

/-- On a well-formed volume, a file with a chain that covers its size is read as the data of the
chain, cut to the size; every range of it is read as that part, and a range that reaches beyond the
size is refused. -/
theorem reads_file_contents (hwf : WellFormed image b) {path : Bytes} {info : EntryInfo}
    (hpath : LeadsTo image b b.root (pathNames path) info) (hfile : info.directory = false)
    {cs : List Nat} {stop : Nat} (hchain : Links image b info.firstCluster cs stop)
    (hcover : info.size ≤ cs.length * b.clusterBytes) :
    ∃ v, fatMount image = some v ∧ ∀ fuel, b.clusterCount < fuel →
      (∀ bufferSize, info.size ≤ bufferSize → fatReadFile fuel v path bufferSize =
          .ok (some ((chainData image b cs).take info.size))) ∧
      ∀ offset length,
        (offset + length ≤ info.size → fatReadFileRange fuel v path offset length =
            .ok (some ((((chainData image b cs).take info.size).drop offset).take length))) ∧
        (info.size < offset + length → fatReadFileRange fuel v path offset length = .ok none) := by
  refine ⟨b.volume image, hwf.fatMount_eq, ?_⟩
  intro fuel hfuel
  obtain ⟨last, hresolve⟩ := resolvePath_eq hwf hfuel hpath
  refine ⟨?_, ?_⟩
  · intro bufferSize hbuffer
    exact fatReadFile_eq hwf hresolve hfile hchain hcover hbuffer
  · intro offset length
    refine ⟨?_, ?_⟩
    · intro hin
      exact fatReadFileRange_inside hwf hresolve hfile hchain hcover hin
    · intro hout
      exact fatReadFileRange_outside hresolve hout

/-- A FAT12 volume of three clusters: the root directory holds a directory `D` in cluster 2, which
holds a file `A` of 600 bytes in the clusters 4 and 3. -/
def fragmented : Store :=
  imageOf 3072 ([(12, 2), (13, 1), (14, 1), (16, 1), (17, 16), (19, 6), (22, 1), (515, 255),
      (516, 255), (517, 255), (518, 3), (1024, 68), (1035, 16), (1050, 2), (2048, 7), (2560, 5)] ++
    (range 10).map (fun k => (1025 + k, (32 : UInt8))) ++ slotOfFileA 1536 4 600)

/-- The boot sector of `fragmented`. -/
def fragmentedBpb : Bpb := ⟨512, 1, 1, 1, 16, 6, 1, 0⟩

/-- `/D/A`. -/
def fileDA : Bytes := [slash, 68, slash, 65]

private theorem wellFormed_fragmented : WellFormed fragmented fragmentedBpb := by
  decide

private theorem leadsTo_fragmented :
    LeadsTo fragmented fragmentedBpb fragmentedBpb.root (pathNames fileDA)
      ⟨[97], 600, 4, false⟩ := by
  have hroot : SlotsOf fragmented fragmentedBpb fragmentedBpb.root (rootSlots fragmentedBpb) := by
    rw [SlotsOf, if_pos (by decide)]
  have hsub : SlotsOf fragmented fragmentedBpb ⟨false, 2⟩ (clusterSlots fragmentedBpb 2) :=
    ⟨[2], 4095, by decide +kernel, by decide, by decide⟩
  have hfindD : entryNamed (entriesOf fragmented (rootSlots fragmentedBpb) LongName.none) [68] =
      some ⟨[100], 0, 2, true⟩ := by decide
  have hfindA : entryNamed (entriesOf fragmented (clusterSlots fragmentedBpb 2) LongName.none)
      [65] = some ⟨[97], 600, 4, false⟩ := by decide
  rw [show pathNames fileDA = [[68], [65]] by decide]
  exact .into hroot (by decide) hfindD rfl (.entry hsub (by decide) hfindA)

/-- The file of `fragmented`, read across the border of its two clusters. -/
theorem reads_file_contents_fragmented :
    WellFormed fragmented fragmentedBpb ∧
      Links fragmented fragmentedBpb 4 [4, 3] 4095 ∧
      ∃ v, fatMount fragmented = some v ∧
        fatReadFileRange 4 v fileDA 511 2 = .ok (some [0, 7]) := by
  have hlinks : Links fragmented fragmentedBpb 4 [4, 3] 4095 := by decide +kernel
  obtain ⟨v, hmount, hread⟩ := reads_file_contents wellFormed_fragmented leadsTo_fragmented rfl
    hlinks (by decide)
  refine ⟨wellFormed_fragmented, hlinks, v, hmount, ?_⟩
  rw [((hread 4 (by decide)).2 511 2).1 (by decide)]
  decide +kernel

end NasuaOS.Fat
