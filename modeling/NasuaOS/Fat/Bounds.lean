import NasuaOS.Fat.Reach

/-!
# When the reader stays inside the image

`sector_pointer` checks one sector against the image. Three accesses are not covered by it: the
table entry that `next_cluster` reads, the directory slot that sticks out of a sector whose size is
no multiple of 32, and the sectors of a cluster after the first, which `fat_read_file` copies
(`fat_read_file_range` checks the whole cluster). Whether they leave the image depends on the
directories and files that a path leads to, and on nothing else.
-/

namespace NasuaOS.Fat

open Base Libc List

variable {v : Volume}

/-- Where the table entry of a cluster starts in the table, and its bytes. -/
def entryPlace (v : Volume) (cluster : Nat) : Nat × Nat :=
  match v.type with
  | .fat32 => (cluster * 4, 4)
  | .fat16 => (cluster * 2, 2)
  | .fat12 => (cluster + cluster / 2, 2)

/-- If the table has an entry for the cluster, that entry lies in the image. -/
def EntryInside (v : Volume) (cluster : Nat) : Prop :=
  (entryPlace v cluster).1 + (entryPlace v cluster).2 ≤ fatSize v →
    fatOffset v + (entryPlace v cluster).1 + (entryPlace v cluster).2 ≤ v.image.size

private theorem inBounds_nextCluster (v : Volume) (cluster : Nat) :
    InBounds (nextCluster v cluster) ↔ EntryInside v cluster := by
  rw [nextCluster, EntryInside, entryPlace]
  cases v.type with
  | fat32 =>
    dsimp only
    split
    · next h => exact ⟨fun _ hle => absurd hle (Nat.not_le.mpr h), fun _ => InBounds.ok _⟩
    · next h => rw [InBounds.map_iff, read32, InBounds.word_iff, imp_iff_right (Nat.not_lt.mp h)]
  | fat16 =>
    dsimp only
    split
    · next h => exact ⟨fun _ hle => absurd hle (Nat.not_le.mpr h), fun _ => InBounds.ok _⟩
    · next h => rw [read16, InBounds.word_iff, imp_iff_right (Nat.not_lt.mp h)]
  | fat12 =>
    dsimp only
    split
    · next h => exact ⟨fun _ hle => absurd hle (Nat.not_le.mpr h), fun _ => InBounds.ok _⟩
    · next h => rw [InBounds.map_iff, read16, InBounds.word_iff, imp_iff_right (Nat.not_lt.mp h)]

/-! ### Directories -/

/-- A walk that no entry stops gets from one cluster to another, with the long names collected. -/
inductive Reaches (v : Volume) : Nat → LongName → Nat → LongName → Prop
  | refl (cluster : Nat) (long : LongName) : Reaches v cluster long cluster long
  | step {cluster next last : Nat} {long long' lastLong : LongName}
      (hlast : isLastCluster v cluster = false)
      (hpass : passCluster v cluster long = .ok ((), some long'))
      (hnext : nextCluster v cluster = .ok next) (hrest : Reaches v next long' last lastLong) :
      Reaches v cluster long last lastLong

/-- The slots of a directory are read inside the image up to the first unused one, and so is the
table entry of every cluster that another one is looked for after. -/
def DirectoryInside (v : Volume) (directory : Directory) : Prop :=
  if directory.fixedRoot = true then InBounds (passRoot v)
  else ∀ cluster long, Reaches v directory.cluster LongName.none cluster long →
    isLastCluster v cluster = false → InBounds (passCluster v cluster long) ∧
      ∀ long', passCluster v cluster long = .ok ((), some long') → EntryInside v cluster

private theorem inBounds_visitClusters (cluster : Nat) (long : LongName) :
    (∀ fuel, InBounds (visitClusters v goOn fuel cluster long ())) ↔
      ∀ cluster' long', Reaches v cluster long cluster' long' → isLastCluster v cluster' = false →
        InBounds (passCluster v cluster' long') ∧
          ∀ more, passCluster v cluster' long' = .ok ((), some more) → EntryInside v cluster' := by
  constructor
  · intro h cluster' long' hreach
    induction hreach with
    | refl cluster long =>
      intro hlast
      have hone := h 1
      rw [visitClusters, if_neg (by simp [hlast]), InBounds.bind_iff] at hone
      refine ⟨hone.1, fun more hpass => ?_⟩
      have hnext := hone.2 _ hpass
      rw [InBounds.bind_iff] at hnext
      exact (inBounds_nextCluster v cluster).mp hnext.1
    | step hlast hpass hnext hrest ih =>
      apply ih
      intro fuel
      have hmore := h (fuel + 1)
      rw [visitClusters, if_neg (by simp [hlast]), InBounds.bind_iff] at hmore
      exact (InBounds.bind_iff.mp (hmore.2 _ hpass)).2 _ hnext
  · intro h fuel
    induction fuel generalizing cluster long with
    | zero => exact InBounds.outOfFuel
    | succ fuel ih =>
      rw [visitClusters]
      split
      · exact InBounds.ok _
      · next hlast =>
        have hlast : isLastCluster v cluster = false := by simpa using hlast
        obtain ⟨hpass, hentry⟩ := h _ _ (.refl _ _) hlast
        refine InBounds.bind_iff.mpr ⟨hpass, ?_⟩
        rintro ⟨_, _ | more⟩ hres
        · exact InBounds.ok _
        · refine InBounds.bind_iff.mpr ⟨(inBounds_nextCluster v cluster).mpr (hentry _ hres), ?_⟩
          intro next hnext
          apply ih
          intro cluster' long' hreach
          exact h _ _ (.step hlast hres hnext hreach)

private theorem inBounds_walk (v : Volume) (directory : Directory) :
    (∀ fuel, InBounds ((walkDirectory fuel v directory).run goOn ())) ↔
      DirectoryInside v directory := by
  simp only [← iterateDirectory_run]
  unfold iterateDirectory DirectoryInside
  split
  · simp only [InBounds.map_iff]
    exact ⟨fun h => h 0, fun h _ => h⟩
  · exact inBounds_visitClusters _ _

/-! ### Files -/

/-- The chain of clusters from `first` on: the one behind `k` others, all with a property. -/
inductive Chain (v : Volume) (P : Nat → Prop) : Nat → Nat → Nat → Prop
  | here (cluster : Nat) : Chain v P cluster 0 cluster
  | next {first next k cluster : Nat} (hlast : isLastCluster v first = false) (hfirst : P first)
      (hnext : nextCluster v first = .ok next) (hrest : Chain v P next k cluster) :
      Chain v P first (k + 1) cluster

/-- The first sector of a cluster lies in the image. -/
def StartInside (v : Volume) (cluster : Nat) : Prop :=
  clusterFirstSector v cluster * v.bytesPerSector + v.bytesPerSector ≤ v.image.size

/-- The clusters of `size` bytes from `first` on. -/
structure FileInside (v : Volume) (first size : Nat) : Prop where
  /-- A cluster with more bytes behind it has its table entry in the image. -/
  entries : ∀ k cluster, Chain v (fun _ => True) first k cluster →
    (k + 1) * clusterSize v < size → isLastCluster v cluster = false → EntryInside v cluster
  /-- Every cluster up to the first one that starts outside the image has its table entry in the
  image, and its bytes. -/
  clusters : ∀ k cluster, Chain v (StartInside v) first k cluster → k * clusterSize v < size →
    isLastCluster v cluster = false → StartInside v cluster → EntryInside v cluster ∧
      clusterFirstSector v cluster * v.bytesPerSector +
        min (size - k * clusterSize v) (clusterSize v) ≤ v.image.size

private theorem sectorPointer_eq (cluster : Nat) :
    sectorPointer v (clusterFirstSector v cluster) = none ∧ ¬StartInside v cluster ∨
      sectorPointer v (clusterFirstSector v cluster) =
        some (clusterFirstSector v cluster * v.bytesPerSector) ∧ StartInside v cluster := by
  rw [sectorPointer, StartInside]
  split
  · next h => exact .inl ⟨rfl, Nat.not_le.mpr h⟩
  · next h => exact .inr ⟨rfl, Nat.not_lt.mp h⟩

private theorem inBounds_copyFile (hsize : 0 < clusterSize v) (fuel cluster remaining : Nat)
    (hfuel : remaining ≤ fuel) : InBounds (copyFile v fuel cluster remaining) ↔
      ∀ k last, Chain v (StartInside v) cluster k last → k * clusterSize v < remaining →
        isLastCluster v last = false → StartInside v last → EntryInside v last ∧
          clusterFirstSector v last * v.bytesPerSector +
            min (remaining - k * clusterSize v) (clusterSize v) ≤ v.image.size := by
  induction fuel generalizing cluster remaining with
  | zero =>
    obtain rfl : remaining = 0 := by omega
    exact ⟨fun _ k _ _ hk => absurd hk (Nat.not_lt_zero _), fun _ => InBounds.ok _⟩
  | succ fuel ih =>
    cases remaining with
    | zero => exact ⟨fun _ k _ _ hk => absurd hk (Nat.not_lt_zero _), fun _ => InBounds.ok _⟩
    | succ remaining =>
      rw [copyFile]
      split
      · next hmark =>
        refine ⟨fun _ k last hchain _ hlast => ?_, fun _ => InBounds.ok _⟩
        cases hchain with
        | here => simp [hmark] at hlast
        | next hfirst => simp [hmark] at hfirst
      next hmark =>
      have hmark : isLastCluster v cluster = false := by simpa using hmark
      rcases sectorPointer_eq cluster with ⟨hp, hstart⟩ | ⟨hp, hstart⟩
      · rw [hp]
        refine ⟨fun _ k last hchain _ _ hlast => ?_, fun _ => InBounds.ok _⟩
        cases hchain with
        | here => exact absurd hlast hstart
        | next _ hfirst => exact absurd hfirst hstart
      rw [hp]
      -- The bytes behind this cluster are the next round's, counted from one cluster further on.
      have hrest (next : Nat) := ih next (remaining + 1 - min (remaining + 1) (clusterSize v))
        (by omega)
      constructor
      · intro h
        obtain ⟨hcopy, hgo⟩ := InBounds.bind_iff.mp h
        rw [InBounds.copy_iff] at hcopy
        obtain ⟨hentry, hgo⟩ := InBounds.bind_iff.mp (hgo _ (Store.copy_eq hcopy))
        intro k last hchain hk hlast hin
        cases hchain with
        | here => exact ⟨(inBounds_nextCluster v cluster).mp hentry, by simpa using hcopy⟩
        | @next _ next k _ _ _ hnext hchain =>
          rw [Nat.succ_mul] at hk ⊢
          have hcopied := (InBounds.bind_iff.mp (hgo next hnext)).1
          obtain ⟨hentry, hfit⟩ := (hrest next).mp hcopied k last hchain (by omega) hlast hin
          exact ⟨hentry, by omega⟩
      · intro h
        obtain ⟨hentry, hfit⟩ := h 0 cluster (.here _) (by omega) hmark hstart
        refine InBounds.bind_iff.mpr ⟨InBounds.copy_iff.mpr (by simpa using hfit), fun _ _ => ?_⟩
        refine InBounds.bind_iff.mpr ⟨(inBounds_nextCluster v cluster).mpr hentry, ?_⟩
        intro next hnext
        refine InBounds.bind_iff.mpr ⟨(hrest next).mpr ?_, fun _ _ => InBounds.ok _⟩
        intro k last hchain hk hlast hin
        have hmore := h (k + 1) last (.next hmark hstart hnext hchain)
        rw [Nat.succ_mul] at hmore
        obtain ⟨hentry, hfit⟩ := hmore (by omega) hlast hin
        exact ⟨hentry, by omega⟩

private theorem Chain.snoc {P : Nat → Prop} {first k cluster next : Nat}
    (h : Chain v P first k cluster) (hlast : isLastCluster v cluster = false) (hP : P cluster)
    (hnext : nextCluster v cluster = .ok next) : Chain v P first (k + 1) next := by
  induction h with
  | here => exact .next hlast hP hnext (.here _)
  | next hfirst hPfirst hstep _ ih => exact .next hfirst hPfirst hstep (ih hlast hP hnext)

private theorem inBounds_skipClusters {count first : Nat}
    (h : ∀ k cluster, Chain v (fun _ => True) first k cluster → k < count →
      isLastCluster v cluster = false → EntryInside v cluster) :
    InBounds (skipClusters v count first) ∧ ∀ cluster,
      skipClusters v count first = .ok (some cluster) →
        Chain v (fun _ => True) first count cluster := by
  induction count generalizing first with
  | zero =>
    refine ⟨InBounds.ok _, fun cluster hres => ?_⟩
    cases hres
    exact .here _
  | succ count ih =>
    rw [skipClusters]
    split
    · exact ⟨InBounds.ok _, nofun⟩
    · next hlast =>
      have hlast : isLastCluster v first = false := by simpa using hlast
      have hrest {next : Nat} (hnext : nextCluster v first = .ok next) :=
        ih fun k cluster hchain hk =>
          h (k + 1) cluster (.next hlast trivial hnext hchain) (Nat.succ_lt_succ hk)
      have hentry := (inBounds_nextCluster v first).mpr (h 0 first (.here _) (by omega) hlast)
      refine ⟨InBounds.bind_iff.mpr ⟨hentry, fun next hnext => (hrest hnext).1⟩, ?_⟩
      intro cluster hres
      obtain ⟨next, hnext, hres⟩ := bind_eq_ok.mp hres
      exact .next hlast trivial hnext ((hrest hnext).2 cluster hres)

private theorem entryInside_of_skip {first k cluster : Nat}
    (hchain : Chain v (fun _ => True) first k cluster) (hlast : isLastCluster v cluster = false)
    (h : InBounds (skipClusters v (k + 1) first)) : EntryInside v cluster := by
  induction hchain with
  | here =>
    rw [skipClusters, if_neg (by simp [hlast]), InBounds.bind_iff] at h
    exact (inBounds_nextCluster v _).mp h.1
  | next hfirst _ hnext _ ih =>
    rw [skipClusters, if_neg (by simp [hfirst]), InBounds.bind_iff] at h
    exact ih hlast (h.2 _ hnext)

private theorem FileInside.copyRange {first size : Nat} (h : FileInside v first size) (fuel : Nat)
    {k cluster clusterOffset remaining : Nat} (hchain : Chain v (fun _ => True) first k cluster)
    (hoff : clusterOffset ≤ clusterSize v)
    (hfit : k * clusterSize v + clusterOffset + remaining ≤ size) :
    InBounds (copyRange v fuel cluster clusterOffset remaining) := by
  induction fuel generalizing k cluster clusterOffset remaining with
  | zero =>
    cases remaining with
    | zero => exact InBounds.ok _
    | succ remaining => exact InBounds.outOfFuel
  | succ fuel ih =>
    cases remaining with
    | zero => exact InBounds.ok _
    | succ remaining =>
      rw [Fat.copyRange]
      dsimp only
      split
      · exact InBounds.ok _
      next hlast =>
      have hlast : isLastCluster v cluster = false := by simpa using hlast
      rcases sectorPointer_eq cluster with ⟨hp, -⟩ | ⟨hp, -⟩
      · rw [hp]
        exact InBounds.ok _
      rw [hp]
      dsimp only
      split
      · exact InBounds.ok _
      refine InBounds.bind_iff.mpr ⟨InBounds.copy_iff.mpr (by omega), fun _ _ => ?_⟩
      split
      · have hsucc : (k + 1) * clusterSize v = k * clusterSize v + clusterSize v :=
          Nat.succ_mul _ _
        have hentry := h.entries k cluster hchain (by omega) hlast
        refine InBounds.bind_iff.mpr ⟨(inBounds_nextCluster v cluster).mpr hentry, ?_⟩
        intro next hnext
        refine InBounds.bind_iff.mpr ⟨ih (hchain.snoc hlast trivial hnext) (Nat.zero_le _) ?_,
          fun _ _ => InBounds.ok _⟩
        omega
      · exact InBounds.ok _

private theorem FileInside.range {first size : Nat} (h : FileInside v first size) {offset : Nat}
    (hoffset : offset < size) : InBounds (skipClusters v (offset / clusterSize v) first) ∧
      ∀ cluster, skipClusters v (offset / clusterSize v) first = .ok (some cluster) →
        Chain v (fun _ => True) first (offset / clusterSize v) cluster := by
  apply inBounds_skipClusters
  intro k cluster hchain hk
  apply h.entries k cluster hchain
  have hle : (k + 1) * clusterSize v ≤ offset / clusterSize v * clusterSize v :=
    Nat.mul_le_mul_right _ hk
  have hdiv := Nat.div_mul_le_self offset (clusterSize v)
  omega

private theorem clusterSize_geometry {image : Store} {bytes sectors reserved count root total fat
      cluster : Nat} (h : geometry image bytes sectors reserved count root total fat cluster = some v) :
    clusterSize v = sectors * bytes := by
  rw [geometry] at h
  split at h
  · cases h
  dsimp only at h
  split at h
  · cases h
  · cases h
    rfl

private theorem clusterSize_pos {image : Store} (h : fatMount image = some v) :
    0 < clusterSize v := by
  rw [fatMount] at h
  split at h
  · cases h
  dsimp only at h
  split at h
  · cases h
  · rw [clusterSize_geometry h]
    exact Nat.mul_pos (by omega) (by omega)

/-! ### Calls -/

/-- What a path leads to is read inside the image. -/
structure Contained (v : Volume) : Prop where
  directories : ∀ {path info directory}, Found v path info directory → info.directory = true →
    DirectoryInside v directory
  files : ∀ {path info directory}, Found v path info directory → info.directory = false →
    FileInside v info.firstCluster info.size

section

variable (h : Contained v) {path : Bytes} {fuel : Nat}

include h

private theorem Contained.walk {info : EntryInfo} {directory : Directory}
    (hfound : Found v path info directory) (hinfo : info.directory = true) {σ : Type}
    (callback : Callback σ) (data : σ) (fuel : Nat) :
    InBounds ((walkDirectory fuel v directory).run callback data) := by
  intro hstop
  exact (inBounds_walk v directory).mpr (h.directories hfound hinfo) fuel (run_goOn hstop)

private theorem Contained.readFile (hsize : 0 < clusterSize v) (bufferSize : Nat) :
    InBounds (fatReadFile fuel v path bufferSize) := by
  refine InBounds.bind_iff.mpr ⟨keeps_resolvePath sequential_inBounds h.walk path fuel, ?_⟩
  rintro (_ | ⟨info, directory⟩) hfound
  · exact InBounds.ok _
  dsimp only
  split
  · exact InBounds.ok _
  split
  · exact InBounds.ok _
  next hinfo _ =>
  rw [inBounds_copyFile hsize _ _ _ le_rfl]
  exact (h.files ⟨fuel, hfound⟩ (by simpa using hinfo)).clusters

private theorem Contained.readFileRange (hsize : 0 < clusterSize v) (offset length : Nat) :
    InBounds (fatReadFileRange fuel v path offset length) := by
  refine InBounds.bind_iff.mpr ⟨keeps_resolvePath sequential_inBounds h.walk path fuel, ?_⟩
  rintro (_ | ⟨info, directory⟩) hfound
  · exact InBounds.ok _
  dsimp only
  split
  · exact InBounds.ok _
  next hrequest =>
  split
  · exact InBounds.ok _
  split
  · exact InBounds.ok _
  have hfile := h.files ⟨fuel, hfound⟩ (by simpa using fun hinfo => hrequest (.inl hinfo))
  obtain ⟨hskip, hchain⟩ := hfile.range (by omega : offset < info.size)
  refine InBounds.bind_iff.mpr ⟨hskip, ?_⟩
  rintro (_ | cluster) hres
  · exact InBounds.ok _
  · apply hfile.copyRange _ (hchain cluster hres) (Nat.mod_lt _ hsize).le
    have hdiv := Nat.div_add_mod' offset (clusterSize v)
    omega

end

private theorem Found.directoryInside {path : Bytes} {info : EntryInfo}
    {directory : Directory} (hfound : Found v path info directory) (hinfo : info.directory = true)
    (h : ∀ fuel path, InBounds (fatStat fuel v path)) : DirectoryInside v directory := by
  rw [← inBounds_walk]
  intro fuel hstop
  obtain ⟨least, hstat⟩ := hfound.stat_absent hinfo
  refine h (max fuel least) _ (hstat _ (Nat.le_max_right _ _) .outOfBounds ?_)
  have hends : (walkDirectory fuel v directory).run goOn () ≠ .error .outOfFuel := by
    rw [hstop]
    nofun
  rw [← hstop]
  exact fueled_walk directory _ _ (Nat.le_max_left _ _) hends

private theorem Found.fileInside {path : Bytes} {info : EntryInfo} {directory : Directory}
    (hfound : Found v path info directory) (hinfo : info.directory = false)
    (hsize : 0 < clusterSize v)
    (hread : ∀ fuel path bufferSize, InBounds (fatReadFile fuel v path bufferSize))
    (hrange : ∀ fuel path offset length, InBounds (fatReadFileRange fuel v path offset length)) :
    FileInside v info.firstCluster info.size := by
  obtain ⟨fuel, hfound⟩ := hfound
  refine ⟨fun k cluster hchain hk hlast => ?_, ?_⟩
  · have hone := (InBounds.bind_iff.mp (hrange fuel path ((k + 1) * clusterSize v) 1)).2 _ hfound
    dsimp only at hone
    rw [if_neg (by simp [hinfo]; omega), if_neg Nat.one_ne_zero, if_neg hsize.ne',
      Nat.mul_div_cancel _ hsize] at hone
    exact entryInside_of_skip hchain hlast (InBounds.bind_iff.mp hone).1
  · have hwhole := (InBounds.bind_iff.mp (hread fuel path info.size)).2 _ hfound
    dsimp only at hwhole
    rw [if_neg (by simp [hinfo]), if_neg (Nat.lt_irrefl _),
      inBounds_copyFile hsize _ _ _ le_rfl] at hwhole
    exact hwhole

/-- The path of the file in the images below. -/
def fileA : Bytes := [slash, 65]

/-- Boot sector with two tables of 2³¹ sectors: their product wraps to 0, so the root directory
follows the reserved sector and the tables reach far beyond the image. -/
def tableOutside : Store :=
  imageOf 1024 ([(12, 2), (13, 1), (14, 1), (16, 2), (17, 16), (19, 10), (39, 128)] ++
    slotOfFileA 512 4000 1000)

/-- Sectors of 500 bytes; the last slot of the root directory sticks out of the image. -/
def slotOutside : Store :=
  imageOf 1000 ([(11, 244), (12, 1), (13, 1), (16, 1), (17, 15), (19, 3), (22, 1)] ++
    (range 15).map (fun k => (500 + 32 * k, (229 : UInt8))) ++ [(980, 65)])

/-- Clusters of two sectors; the image ends between the two sectors of the file's cluster. -/
def clusterOutside : Store :=
  imageOf 2048 ([(12, 2), (13, 2), (14, 1), (16, 1), (17, 16), (19, 5), (22, 1)] ++
    slotOfFileA 1024 2 600)

/-- The image of `clusterOutside` with the sector that is missing there and one more, which is too
little for another cluster. -/
def clusterInside : Store := { clusterOutside with size := 3072 }

/-- The volume of `clusterInside`. -/
def volumeInside : Volume := (fatMount clusterInside).get (by decide)

/-- Paths on `clusterInside` lead to the root directory or to its file. -/
theorem found_volumeInside {path : Bytes} {info : EntryInfo} {directory : Directory}
    (h : Found volumeInside path info directory) :
    info.directory = true ∧ directory.fixedRoot = true ∨ info = ⟨[97], 600, 2, false⟩ := by
  obtain ⟨fuel, h⟩ := h
  rw [resolvePath] at h
  cases hnames : components path with
  | nil =>
    rw [hnames] at h
    cases h
    exact .inl ⟨rfl, rfl⟩
  | cons name rest =>
    rw [hnames] at h
    obtain ⟨found, hfound, h⟩ := bind_eq_ok.mp h
    rw [iterateDirectory_run] at hfound
    change (Walk.meets ⟨[97], 600, 2, false⟩ .ended).run (searchCallback name) none = _ at hfound
    rw [Walk.run, searchCallback] at hfound
    split_ifs at hfound
    · cases hfound
      cases rest with
      | nil =>
        cases h
        exact .inr rfl
      | cons next rest => cases h
    · cases hfound
      cases h

private theorem contained_volumeInside : Contained volumeInside where
  directories hfound hinfo := by
    rcases found_volumeInside hfound with ⟨-, hroot⟩ | rfl
    · rw [DirectoryInside, if_pos hroot]
      decide
    · cases hinfo
  files hfound hinfo := by
    rcases found_volumeInside hfound with ⟨hdir, -⟩ | rfl
    · rw [hdir] at hinfo
      cases hinfo
    · have hbytes : clusterSize volumeInside = 1024 := by decide
      refine ⟨fun k cluster _ hk => ?_, fun k cluster hchain hk _ _ => ?_⟩
      · rw [hbytes] at hk
        dsimp only at hk
        omega
      · rw [hbytes] at hk
        dsimp only at hk
        cases hchain with
        | here => exact ⟨by unfold EntryInside; decide, by decide⟩
        | next => omega

end NasuaOS.Fat
