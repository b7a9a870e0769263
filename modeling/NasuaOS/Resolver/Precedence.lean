import NasuaOS.ClawFS.Paths
import NasuaOS.Resolver.Overlay

/-!
# Where a path resolves to

A path names a regular file of ClawFS when every name before the last is a directory's and the last
one is a file's; a path that ends in a slash names no file, as in `split_file_path`. Such a file
comes first, and `rootfs` answers for all other paths. `resolve_system_file` differs in two
places: `clawfs_get_file_info` refuses every path whose only slash is the first byte, and
`get_sector_by_path` walks through regular files. `file_resolver.cpp:234–362`.
-/

namespace NasuaOS.Resolver

open Base Libc ClawFS Fat List

variable {s : State} {m : Machine} {disk : Disk} {path front name : Bytes}

/-- The entry that names lead to from a directory; all names but the last are directories'. -/
def namedEntry (disk : Disk) : Nat → List Bytes → Bytes → Option CLAWFSEntry
  | dir, [], name => findEntry (disk dir) name
  | dir, parent :: rest, name =>
    (findEntry (disk dir) parent).bind fun e =>
      if e.type = clawfsDirectory then namedEntry disk e.dataSector rest name else none

/-- The entry that names lead to when the types of all names but the last are ignored. -/
def walkedEntry (disk : Disk) (parents : List Bytes) (name : Bytes) :
    Option CLAWFSEntry :=
  if lookupTokens disk clawfsRootSector parents = 0 then none
  else findEntry (disk (lookupTokens disk clawfsRootSector parents)) name

/-- The regular file at a path, for a way to follow names from the root. -/
def fileAt (follow : List Bytes → Bytes → Option CLAWFSEntry) (path : Bytes) :
    Option CLAWFSEntry :=
  if path.getLast? = some slash then none
  else
    (pathNames path).getLast?.bind fun name =>
      (follow (pathNames path).dropLast name).filter (·.type == clawfsFile)

/-- The regular file of ClawFS that a path names. -/
def namedFile (disk : Disk) (path : Bytes) : Option CLAWFSEntry :=
  fileAt (namedEntry disk clawfsRootSector) path

/-- The file that a walk ends at which also goes through regular files. -/
def walkedFile (disk : Disk) (path : Bytes) : Option CLAWFSEntry :=
  fileAt (walkedEntry disk) path

/-- What a path resolves to: the file of ClawFS that it names, or what `rootfs` has. -/
def overlayResult (fuel : Nat) (rootfs : Option Volume) (path : Bytes) :
    Option CLAWFSEntry → Reading FileResolveResult
  | some e => .ok ⟨.clawfs, true, e.dataSector, e.entryCount⟩
  | none => resolveRootfs fuel rootfs path

variable {parents : List Bytes}

private theorem namedEntry_of_throughDirs {dir : Nat} (hdir : dir ≠ 0)
    (h : ThroughDirs disk dir parents) (name : Bytes) : namedEntry disk dir parents name =
      if lookupTokens disk dir parents = 0 then none
      else findEntry (disk (lookupTokens disk dir parents)) name := by
  induction parents generalizing dir with
  | nil => rw [namedEntry, lookupTokens, if_neg hdir]
  | cons parent rest ih =>
    rw [namedEntry, lookupTokens]
    cases he : findEntry (disk dir) parent with
    | none => rfl
    | some e =>
      obtain ⟨-, -, -, -, -, hsector⟩ := findEntry_some he
      obtain ⟨htype, hrest⟩ := h e he
      rw [Option.bind_some, if_pos htype]
      exact ih hsector hrest

private theorem namedEntry_of_not_throughDirs {dir : Nat} (h : ¬ ThroughDirs disk dir parents)
    (name : Bytes) : namedEntry disk dir parents name = none := by
  induction parents generalizing dir with
  | nil => exact absurd trivial h
  | cons parent rest ih =>
    rw [namedEntry]
    cases he : findEntry (disk dir) parent with
    | none => rfl
    | some e =>
      rw [Option.bind_some]
      split
      · next htype =>
        apply ih
        intro hrest
        apply h
        intro f hf
        rw [he] at hf
        cases hf
        exact ⟨htype, hrest⟩
      · rfl

/-- A path names the file that the walk ends at, or the walk goes through something that is no
directory. -/
theorem namedFile_eq (disk : Disk) (path : Bytes) : namedFile disk path =
      if ThroughDirs disk clawfsRootSector (pathNames path).dropLast then walkedFile disk path
      else none := by
  rw [namedFile, walkedFile, fileAt, fileAt]
  split
  · next hslash => rw [ite_self]
  cases (pathNames path).getLast? with
  | none => rw [Option.bind_none, Option.bind_none, ite_self]
  | some name =>
    rw [Option.bind_some, Option.bind_some]
    split
    · next h => rw [namedEntry_of_throughDirs (by decide) h, walkedEntry]
    · next h => rw [namedEntry_of_not_throughDirs h, Option.filter_none]

private theorem findEntry_nil (buffer : Sector) : findEntry buffer [] = none := by
  cases hslot : findSlot buffer [] with
  | none => rw [findEntry, hslot, Option.bind_none]
  | some i =>
    obtain ⟨-, hi⟩ := firstSlot_some hslot
    rw [Bool.and_eq_true, named_iff_holds _ _ _ not_mem_nil, used, bne_iff_ne] at hi
    exact absurd hi.2.2 hi.1

private theorem getSectorByPath_header (hheader : headerValid (m.disk clawfsStartLba) = true)
    (hfaults : m.faults = noFaults) (path : Bytes) :
    ∃ m', Mounted m' ∧ m'.disk = m.disk ∧ getSectorByPath path m = (lookupPath m.disk path, m') := by
  cases hinit : m.allocatorInitialized with
  | true =>
    have hmounted : Mounted m := ⟨hheader, hinit, hfaults⟩
    exact ⟨m, hmounted, rfl, getSectorByPath_mounted m hmounted path⟩
  | false =>
    have hmounted := mounted_remounted hheader hfaults
    refine ⟨remounted m, hmounted, rfl, ?_⟩
    rw [getSectorByPath_unmounted hheader hinit hfaults, getSectorByPath_mounted _ hmounted]
    rfl

private theorem clawfsGetFileInfo_mounted (h : Mounted s.claw) (hname : slash ∉ name)
    (hfound : lookupPath s.claw.disk (front ++ slash :: name) ≠ 0) :
    clawfsGetFileInfo (front ++ slash :: name) s = ((if front = [] then none
        else (walkedEntry s.claw.disk (pathNames front) name).filter (·.type == clawfsFile)).map
          fun e => (e.dataSector, e.entryCount), s) := by
  have hdrop : (front ++ slash :: name).drop (front.length + 1) = name := by
    simp
  have htake : (front ++ slash :: name).take (front.length + 1 - 1) = front := by
    simp
  have hparent : lookupPath s.claw.disk front =
      lookupTokens s.claw.disk clawfsRootSector (pathNames front) := by
    rw [lookupPath, pathTokens_eq]
  rw [clawfsGetFileInfo, bind_apply, onDisk, getSectorByPath_mounted _ h]
  rw [if_neg hfound, separatorBefore_length front hname]
  by_cases hfront : front = []
  · rw [if_pos hfront, if_pos (.inr (by rw [hfront]; rfl))]
    rfl
  have hpos := length_pos_iff.mpr hfront
  rw [if_neg hfront, if_neg (by omega), htake, hdrop, bind_apply, onDisk,
    getSectorByPath_mounted _ h, walkedEntry, ← hparent]
  by_cases hz : lookupPath s.claw.disk front = 0
  · rw [if_pos hz, if_pos hz]
    rfl
  rw [if_neg hz, if_neg hz, bind_apply, onDisk, findEntryInDir_faultless _ h.faultless]
  cases findEntry (s.claw.disk (lookupPath s.claw.disk front)) name with
  | none => rfl
  | some e =>
    dsimp only
    by_cases ht : e.type = clawfsFile
    · rw [if_neg (by simp [ht])]
      simp [Option.filter, ht]
    · rw [if_pos ht]
      simp [Option.filter, ht]

/-- The only slash of a path is its first byte. -/
def OnlyFirstSlash (path : Bytes) : Prop := path.head? = some slash ∧ slash ∉ path.tail

instance (path : Bytes) : Decidable (OnlyFirstSlash path) :=
  inferInstanceAs (Decidable (_ ∧ _))

/-- `clawfs_get_file_info` finds no directory before the last slash. -/
def Unsplit (path : Bytes) : Prop := OnlyFirstSlash path ∨ slash ∉ path

instance (path : Bytes) : Decidable (Unsplit path) :=
  inferInstanceAs (Decidable (_ ∨ _))

private theorem walkedFile_append (disk : Disk) (front : Bytes)
    (hname : slash ∉ name) : walkedFile disk (front ++ slash :: name) =
      (walkedEntry disk (pathNames front) name).filter (·.type == clawfsFile) := by
  rw [walkedFile, fileAt]
  by_cases hne : name = []
  · subst hne
    rw [if_pos (by simp), walkedEntry]
    simp [findEntry_nil]
  · have hlast : (front ++ slash :: name).getLast? ≠ some slash := by
      intro hlast
      rw [← singleton_append, ← append_assoc, getLast?_append_of_ne_nil _ hne] at hlast
      exact hname (mem_of_getLast? hlast)
    rw [if_neg hlast, pathNames_concat front hne hname]
    simp

private theorem lookupPath_append (front : Bytes) (hne : name ≠ []) (hname : slash ∉ name) :
    lookupPath disk (front ++ slash :: name) =
      ((walkedEntry disk (pathNames front) name).map (·.dataSector)).getD 0 := by
  rw [lookupPath, pathTokens_eq, pathNames_concat front hne hname,
    lookupTokens_append (by decide), walkedEntry]
  split
  · rfl
  · rw [lookupTokens]
    cases findEntry (disk (lookupTokens disk clawfsRootSector (pathNames front))) name with
    | none | some e => rfl

private theorem walkedEntry_of_lookupPath (hname : slash ∉ name)
    (hz : lookupPath disk (front ++ slash :: name) = 0) :
    walkedEntry disk (pathNames front) name = none := by
  by_cases hne : name = []
  · rw [hne, walkedEntry, findEntry_nil, ite_self]
  · rw [lookupPath_append front hne hname] at hz
    cases he : walkedEntry disk (pathNames front) name with
    | none => rfl
    | some e =>
      rw [he] at hz
      rw [walkedEntry] at he
      split at he
      · cases he
      · obtain ⟨-, -, -, -, -, hsector⟩ := findEntry_some he
        exact absurd hz hsector

private theorem throughDirs_of_onlyFirstSlash (h : OnlyFirstSlash path) :
    ThroughDirs disk clawfsRootSector (pathNames path).dropLast := by
  cases path with
  | nil => cases h.1
  | cons c name =>
    have hc : c = slash := Option.some.inj h.1
    have hname : slash ∉ name := h.2
    subst hc
    by_cases hne : name = []
    · subst hne
      exact trivial
    · rw [show slash :: name = [] ++ slash :: name from rfl, pathNames_concat [] hne hname]
      exact trivial

/-- The result for a file of ClawFS. -/
def clawfsResult (e : CLAWFSEntry) : FileResolveResult :=
  ⟨.clawfs, true, e.dataSector, e.entryCount⟩

private theorem unsplit_append (front : Bytes) (hname : slash ∉ name) :
    Unsplit (front ++ slash :: name) ↔ front = [] := by
  rw [Unsplit, OnlyFirstSlash]
  cases front with
  | nil => simp [hname]
  | cons c front => simp

private theorem clawfsGetFileInfo_of_notMem (h : Mounted s.claw) (hpath : slash ∉ path) :
    clawfsGetFileInfo path s = (none, s) := by
  rw [clawfsGetFileInfo, bind_apply, onDisk, getSectorByPath_mounted _ h]
  split
  · rfl
  · rw [separatorBefore_of_notMem hpath _ le_rfl, if_pos (.inl rfl)]
    rfl

private theorem resolveOverlay_eq (hheader : headerValid (s.claw.disk clawfsStartLba) = true)
    (hfaults : s.claw.faults = noFaults) (hmounted : s.clawfsMounted = true)
    (hlive : fileResolverIsDeleted path s = false) : (resolveOverlay path s).1 =
      (if Unsplit path then none else walkedFile s.claw.disk path).map clawfsResult := by
  obtain ⟨m, hm, hdisk, hsector⟩ := getSectorByPath_header hheader hfaults path
  have hexists : clawfsFileExists path s =
      (lookupPath s.claw.disk path != 0, { s with claw := m }) := by
    rw [clawfsFileExists, bind_apply, onDisk, hsector]
    rfl
  rw [resolveOverlay, hmounted, if_neg (by simp), hlive, if_neg (by simp), hexists]
  by_cases hslash : slash ∈ path
  · obtain ⟨front, name, rfl, hname⟩ := exists_last_slash hslash
    rw [walkedFile_append _ _ hname]
    by_cases hz : lookupPath s.claw.disk (front ++ slash :: name) = 0
    · rw [hz, bne_self_eq_false, walkedEntry_of_lookupPath hname hz, Option.filter_none, ite_self]
      rfl
    · rw [bne_iff_ne.mpr hz]
      dsimp only
      rw [clawfsGetFileInfo_mounted (s := { s with claw := m }) hm hname (by rw [hdisk]; exact hz)]
      rw [hdisk]
      simp only [unsplit_append front hname]
      generalize (if front = [] then none
        else (walkedEntry s.claw.disk (pathNames front) name).filter
          (·.type == clawfsFile)) = found
      cases found with
      | none | some e => rfl
  · have hunsplit : Unsplit path := .inr hslash
    rw [if_pos hunsplit, Option.map_none]
    cases lookupPath s.claw.disk path != 0 with
    | false => rfl
    | true =>
      dsimp only
      rw [clawfsGetFileInfo_of_notMem (s := { s with claw := m }) hm hslash]

/-- `rootfs` never answers with a file of ClawFS. -/
theorem resolveRootfs_source {fuel : Nat} {rootfs : Option Volume} {result : FileResolveResult}
    (h : resolveRootfs fuel rootfs path = .ok result) : result.source ≠ .clawfs := by
  cases rootfs with
  | none =>
    cases h
    simp [notFound]
  | some v =>
    rw [resolveRootfs, bind_eq_ok] at h
    obtain ⟨found, -, h⟩ := h
    cases found with
    | none =>
      cases h
      simp [notFound]
    | some info =>
      dsimp only at h
      split at h
      · cases h
        simp [notFound]
      · cases h
        simp

private theorem overlayResult_none_ne (fuel : Nat) (rootfs : Option Volume) (path : Bytes)
    (e : CLAWFSEntry) :
    overlayResult fuel rootfs path none ≠ overlayResult fuel rootfs path (some e) := by
  intro heq
  exact resolveRootfs_source heq rfl

/-- What `resolve_system_file` returns for a path that is not deleted. -/
theorem resolveSystemFile_eq (fuel : Nat) (rootfs : Option Volume)
    (hheader : headerValid (s.claw.disk clawfsStartLba) = true)
    (hfaults : s.claw.faults = noFaults) (hmounted : s.clawfsMounted = true) (hne : path ≠ [])
    (hlive : fileResolverIsDeleted path s = false) :
    Prod.fst <$> resolveSystemFile fuel rootfs path s = overlayResult fuel rootfs path
        (if Unsplit path then none else walkedFile s.claw.disk path) := by
  have hoverlay := resolveOverlay_eq hheader hfaults hmounted hlive
  generalize (if Unsplit path then none else walkedFile s.claw.disk path) = found at *
  rw [resolveSystemFile, if_neg hne]
  generalize resolveOverlay path s = answer at *
  obtain ⟨result, s'⟩ := answer
  subst hoverlay
  cases found with
  | some e => rfl
  | none =>
    rw [Option.map_none, overlayResult]
    cases resolveRootfs fuel rootfs path with
    | error stop | ok result => rfl

/-- A path resolves to the regular file of ClawFS that it names, and else to `rootfs`, if and only if
it does not name a file by its first slash alone, and does not walk to a file through something that
is no directory. -/
theorem overlay_precedence_iff (fuel : Nat) (rootfs : Option Volume) (path : CString)
    (hheader : headerValid (s.claw.disk clawfsStartLba) = true) (hfaults : s.claw.faults = noFaults)
    (hmounted : s.clawfsMounted = true) (habs : path.val.head? = some slash)
    (_hlength : path.val.length < 128) (hlive : fileResolverIsDeleted path.val s = false) :
    Prod.fst <$> resolveSystemFile fuel rootfs path.val s =
        overlayResult fuel rootfs path.val (namedFile s.claw.disk path.val) ↔
      ¬ (OnlyFirstSlash path.val ∧ (namedFile s.claw.disk path.val).isSome = true) ∧
        ¬ (¬ ThroughDirs s.claw.disk clawfsRootSector (pathNames path.val).dropLast ∧
          (walkedFile s.claw.disk path.val).isSome = true) := by
  have hne : path.val ≠ [] := by
    intro hnil
    rw [hnil] at habs
    cases habs
  have hunsplit : Unsplit path.val ↔ OnlyFirstSlash path.val := by
    rw [Unsplit, or_iff_left]
    exact not_not.mpr (mem_of_mem_head? habs)
  rw [resolveSystemFile_eq fuel rootfs hheader hfaults hmounted hne hlive, namedFile_eq]
  simp only [hunsplit]
  generalize hwalked : walkedFile s.claw.disk path.val = walked
  by_cases honly : OnlyFirstSlash path.val
  · rw [if_pos honly, if_pos (throughDirs_of_onlyFirstSlash honly)]
    cases walked with
    | none => simp
    | some e => simp [honly, overlayResult_none_ne]
  · rw [if_neg honly]
    by_cases hdirs : ThroughDirs s.claw.disk clawfsRootSector (pathNames path.val).dropLast
    · simp [hdirs, honly]
    · rw [if_neg hdirs]
      cases walked with
      | none => simp
      | some e => simp [hdirs, honly, (overlayResult_none_ne fuel rootfs path.val e).symm]

/-- A formatted blank disk under the overlay. -/
def mountedState : State := ⟨(clawfsFormat blank).2, true, [], fun _ => none⟩

/-- `/proc/cpuinfo` resolves to its entry. -/
theorem overlay_precedence_iff_cpuinfo :
    namedFile mountedState.claw.disk cpuinfoPath.val = some ⟨clawfsFile, 127, 0⟩ ∧
      Prod.fst <$> resolveSystemFile 0 none cpuinfoPath.val mountedState =
        .ok ⟨.clawfs, true, 127, 0⟩ := by
  have hnamed : namedFile mountedState.claw.disk cpuinfoPath.val = some ⟨clawfsFile, 127, 0⟩ := by
    decide +kernel
  have hdirs : ThroughDirs mountedState.claw.disk clawfsRootSector
      (pathNames cpuinfoPath.val).dropLast := by decide +kernel
  have hfaults : mountedState.claw.faults = noFaults := by
    obtain ⟨dirs, depth, hs, -⟩ := sound_clawfsFormat (m := blank) rfl
    dsimp only [mountedState]
    exact hs.mounted.faultless
  have hslash : ¬ OnlyFirstSlash cpuinfoPath.val := by decide
  refine ⟨hnamed, ?_⟩
  rw [(overlay_precedence_iff (s := mountedState) 0 none cpuinfoPath (by decide +kernel)
    hfaults rfl (by decide) (by decide) (by decide)).mpr
    ⟨fun h => hslash h.1, fun h => h.1 hdirs⟩, hnamed]
  rfl

/-- A path in the root directory. -/
def rootFile : CString := cstring (ascii ['/', 'x'])

/-- The overlay with a file in the root directory. -/
def withRootFile : State :=
  { mountedState with claw := (clawfsWriteFile rootFile.val [1] mountedState.claw).2 }

/-- A file directly under the root is named, but not found. -/
theorem root_file_not_found :
    namedFile withRootFile.claw.disk rootFile.val = some ⟨clawfsFile, 132, 1⟩ ∧
      fileResolverIsDeleted rootFile.val withRootFile = false ∧
      Prod.fst <$> resolveSystemFile 0 none rootFile.val withRootFile = .ok notFound := by
  decide +kernel

end NasuaOS.Resolver
