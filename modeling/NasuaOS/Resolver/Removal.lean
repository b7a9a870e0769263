import NasuaOS.Fat.Contents
import NasuaOS.Resolver.Precedence

/-!
# Removing a system file

`napp_api_clawfs_rm` calls `clawfs_rm` and nothing else: no tombstone is made, and no other code
calls `file_resolver_mark_deleted`. A removed file is back at once when the directory holds a second
file of its name, or when `rootfs` has a file at its path.
`src/kernel_64bit/src/system/applications/napp/napp.cpp:358–361`, `clawfs.cpp:874–968`,
`file_resolver.cpp:28–42,135–168,308–362`.
-/

namespace NasuaOS.Resolver

open Base Libc ClawFS Fat

variable {s : State} {m m' : Machine} {dirs : Nat → Prop} {depth : Nat → Nat} {d i : Nat}
  {fuel : Nat} {rootfs : Option Volume} {path : Bytes}

/-- `napp_api_clawfs_rm`. -/
def nappApiClawfsRm (parentPath name : Bytes) (type : Nat) : ResolverM Unit := do
  let _ ← onDisk (clawfsRm parentPath name type)

/-- A reboot, after which the overlay is mounted again. -/
def restarted (heap : Nat → Option (Nat → UInt8)) (s : State) : State :=
  (fileResolverMount true (fileResolverInit (reboot heap s)).2).2

/-- The second slot of a directory that a name fits. -/
def secondSlot (buffer : Sector) (name : Bytes) (i : Nat) : Option Nat :=
  firstSlot fun j => decide (j ≠ i) && (used buffer j && named buffer name j)

/-- The second entry of a directory under a name. -/
def secondEntry (buffer : Sector) (name : Bytes) : Option CLAWFSEntry :=
  (findSlot buffer name).bind fun i => (secondSlot buffer name i).map (entryAt buffer)

/-- `fat_stat` returns and finds no file at the path. -/
def RootfsLacks (fuel : Nat) (rootfs : Option Volume) (path : Bytes) : Prop :=
  ∀ v, rootfs = some v → ∃ found, fatStat fuel v path = .ok found ∧
    ∀ info, found = some info → info.directory = true

private theorem findSlot_drop (h : Sound m dirs depth) (hdrop : Drop m m' dirs d i)
    (name : Bytes) : findSlot (m'.disk d) name = secondSlot (m.disk d) name i := by
  apply firstSlot_congr
  intro j hslot
  by_cases hji : j = i
  · subst hji
    simp [hdrop.free]
  · have hne : (d, j) ≠ (d, i) := by
      intro heq
      cases heq
      exact hji rfl
    rw [hdrop.edit.lookup_eq h name hdrop.dir hslot hne]
    simp [hji]

private theorem sound_drop_file (h : Sound m dirs depth) (hdrop : Drop m m' dirs d i)
    (htype : (entryAt (m.disk d) i).type = clawfsFile) : Sound m' dirs depth := by
  have hs := h.drop hdrop
  have hdirs : dirsWithout m.disk dirs d i = dirs := by
    ext x
    simp [dirsWithout, htype, file_ne_directory]
  rwa [hdirs] at hs

variable {parents : List Bytes} {name : Bytes}

private theorem fileAt_concat {follow : List Bytes → Bytes → Option CLAWFSEntry}
    (hend : path.getLast? ≠ some slash) (hnames : pathNames path = parents ++ [name]) :
    fileAt follow path = (follow parents name).filter (·.type == clawfsFile) := by
  rw [fileAt, if_neg hend, hnames, List.getLast?_concat, Option.bind_some, List.dropLast_concat]

private theorem namedFile_slot (h : Sound m dirs depth)
    (hnames : pathNames path = parents ++ [name]) (hfile : (namedFile m.disk path).isSome = true) :
    path.getLast? ≠ some slash ∧ ThroughDirs m.disk clawfsRootSector parents ∧
      ∃ d i, lookupTokens m.disk clawfsRootSector parents = d ∧ d ≠ 0 ∧ dirs d ∧
        findSlot (m.disk d) name = some i ∧ (entryAt (m.disk d) i).type = clawfsFile := by
  have hend : path.getLast? ≠ some slash := by
    intro hend
    rw [namedFile, fileAt, if_pos hend] at hfile
    cases hfile
  rw [namedFile_eq, hnames, List.dropLast_concat] at hfile
  split at hfile
  · next hdirs =>
    rw [walkedFile, fileAt_concat hend hnames, walkedEntry] at hfile
    obtain ⟨e, he⟩ := Option.isSome_iff_exists.mp hfile
    rw [Option.filter_eq_some_iff, beq_iff_eq] at he
    split at he
    · cases he.1
    · next hz =>
      have hd := (h.lookupTokens_dir parents h.root hdirs hz).1
      rw [h.findEntry_eq hd, Option.map_eq_some_iff] at he
      obtain ⟨⟨i, hi, rfl⟩, htype⟩ := he
      exact ⟨hend, hdirs, _, i, rfl, hz, hd, hi, htype⟩
  · cases hfile

private theorem clawfsRm_file (h : Mounted m) {parentPath : Bytes}
    (hd : lookupPath m.disk parentPath = d) (hz : d ≠ 0) (hi : findSlot (m.disk d) name = some i)
    (htype : (entryAt (m.disk d) i).type = clawfsFile) :
    (clawfsRm parentPath name clawfsFile m).2 = dropEntry m d i := by
  have hslot : removalSlot (m.disk d) name clawfsFile = some i := by
    rw [findSlot, firstSlot_eq_some_iff] at hi
    rw [removalSlot, firstSlot_eq_some_iff]
    obtain ⟨hlt, hfits, hfirst⟩ := hi
    refine ⟨hlt, by simp [hfits, htype], ?_⟩
    intro j hj
    rw [hfirst j hj, Bool.false_and]
  rw [clawfsRm_mounted m h, hd, if_neg hz, hslot]
  rfl

private theorem walkedFile_drop (h : Sound m dirs depth) (hend : path.getLast? ≠ some slash)
    (hnames : pathNames path = parents ++ [name])
    (hdirs : ThroughDirs m.disk clawfsRootSector parents)
    (hd : lookupTokens m.disk clawfsRootSector parents = d) (hz : d ≠ 0)
    (hi : findSlot (m.disk d) name = some i) (htype : (entryAt (m.disk d) i).type = clawfsFile)
    (hdrop : Drop m m' dirs d i) : walkedFile m'.disk path = none ↔
      ∀ e, secondEntry (m.disk d) name = some e → e.type ≠ clawfsFile := by
  have hs' := sound_drop_file h hdrop htype
  rw [walkedFile, fileAt_concat hend hnames, walkedEntry,
    h.lookupTokens_eq hdrop.edit.others hdirs hd hz, if_neg hz,
    hs'.findEntry_eq hdrop.dir, findSlot_drop h hdrop, secondEntry, hi, Option.bind_some]
  cases hsecond : secondSlot (m.disk d) name i with
  | none => simp
  | some j =>
    obtain ⟨hj, hp⟩ := firstSlot_some hsecond
    have hne : (d, j) ≠ (d, i) := by
      intro heq
      cases heq
      simp at hp
    rw [Option.map_some, Option.map_some, hdrop.edit.entryAt_eq hdrop.dir hj hne]
    simp

private theorem systemFileExists_eq (fuel : Nat) (rootfs : Option Volume) (path : Bytes)
    (s : State) : Prod.fst <$> systemFileExists fuel rootfs path s =
      FileResolveResult.exist <$> (Prod.fst <$> resolveSystemFile fuel rootfs path s) := by
  rw [systemFileExists]
  cases resolveSystemFile fuel rootfs path s with
  | error stop | ok answer => rfl

private theorem exist_overlayResult_iff (found : Option CLAWFSEntry) :
    FileResolveResult.exist <$> overlayResult fuel rootfs path found = .ok false ↔
      found = none ∧ RootfsLacks fuel rootfs path := by
  cases found with
  | some e =>
    apply iff_of_false
    · intro heq
      cases heq
    · rintro ⟨hnone, -⟩
      cases hnone
  | none =>
    rw [overlayResult, RootfsLacks]
    cases rootfs with
    | none => exact iff_of_true rfl ⟨rfl, fun v hv => by cases hv⟩
    | some v =>
      simp only [resolveRootfs, true_and, Option.some.injEq, forall_eq']
      cases fatStat fuel v path with
      | error stop =>
        apply iff_of_false
        · intro heq
          cases heq
        · rintro ⟨found, hfound, -⟩
          cases hfound
      | ok found =>
        cases found with
        | none => exact iff_of_true rfl ⟨none, rfl, fun info hinfo => by cases hinfo⟩
        | some info =>
          change FileResolveResult.exist <$> (if info.directory = true then _ else _ :
            Reading FileResolveResult) = _ ↔ _
          cases hdir : info.directory with
          | true => exact iff_of_true rfl ⟨some info, rfl, fun _ heq => by cases heq; exact hdir⟩
          | false =>
            apply iff_of_false
            · intro heq
              cases heq
            · rintro ⟨found, hfound, hall⟩
              cases hfound
              rw [hall info rfl] at hdir
              cases hdir

private theorem not_systemFileExists_iff (hheader : headerValid (s.claw.disk clawfsStartLba) = true)
    (hfaults : s.claw.faults = noFaults) (hmounted : s.clawfsMounted = true)
    (hsplit : ¬ Unsplit path) (hlive : fileResolverIsDeleted path s = false) :
    Prod.fst <$> systemFileExists fuel rootfs path s = .ok false ↔
      walkedFile s.claw.disk path = none ∧ RootfsLacks fuel rootfs path := by
  have hne : path ≠ [] := by
    rintro rfl
    exact hsplit (.inr List.not_mem_nil)
  rw [systemFileExists_eq, resolveSystemFile_eq fuel rootfs hheader hfaults hmounted hne hlive,
    if_neg hsplit, exist_overlayResult_iff]

private theorem resolveSystemFile_deleted (fuel : Nat) (rootfs : Option Volume)
    (hmounted : s.clawfsMounted = true) (hdeleted : fileResolverIsDeleted path s = true) :
    Prod.fst <$> resolveSystemFile fuel rootfs path s = .ok notFound := by
  rw [resolveSystemFile]
  split
  · rfl
  · rw [resolveOverlay, hmounted, if_neg (by simp), if_pos hdeleted]
    rfl

private theorem of_resolves_clawfs (hheader : headerValid (s.claw.disk clawfsStartLba) = true)
    (hfaults : s.claw.faults = noFaults) (hmounted : s.clawfsMounted = true)
    {result : FileResolveResult}
    (hresolves : Prod.fst <$> resolveSystemFile fuel rootfs path s = .ok result)
    (hsource : result.source = .clawfs) :
    fileResolverIsDeleted path s = false ∧ ¬ Unsplit path := by
  have hlive : fileResolverIsDeleted path s = false := by
    by_contra hdeleted
    rw [Bool.not_eq_false] at hdeleted
    rw [resolveSystemFile_deleted fuel rootfs hmounted hdeleted] at hresolves
    cases hresolves
    cases hsource
  have hne : path ≠ [] := by
    rintro rfl
    cases hresolves
    cases hsource
  refine ⟨hlive, ?_⟩
  intro hunsplit
  rw [resolveSystemFile_eq fuel rootfs hheader hfaults hmounted hne hlive, if_pos hunsplit]
    at hresolves
  exact resolveRootfs_source hresolves hsource

private theorem claw_restarted (hfaults : s.claw.faults = noFaults)
    (heap : Nat → Option (Nat → UInt8)) :
    (restarted heap s).clawfsMounted = true ∧ (restarted heap s).claw = ClawFS.reboot s.claw := by
  refine ⟨rfl, ?_⟩
  have hload := loadTombstones_faultless (s := reboot heap s) hfaults
  change (fileResolverLoadTombstones (reboot heap s)).2.claw = _
  rw [hload]
  cases (reboot heap s).heap 0 with
  | none | some memory => rfl

/-- After its removal, a system file is gone, now and after a restart, if and only if its directory
holds no second file of its name and `rootfs` has no file at its path. -/
theorem removed_file_gone_iff (hsound : ∃ dirs depth, Sound s.claw dirs depth)
    (hmounted : s.clawfsMounted = true) (fuel : Nat) (rootfs : Option Volume)
    (path parentPath name : CString)
    (hnames : pathNames path.val = pathNames parentPath.val ++ [name.val])
    (hfile : (namedFile s.claw.disk path.val).isSome = true) {result : FileResolveResult}
    (hresolves : Prod.fst <$> resolveSystemFile fuel rootfs path.val s = .ok result)
    (hsource : result.source = .clawfs) (heap : Nat → Option (Nat → UInt8)) :
    (Prod.fst <$> systemFileExists fuel rootfs path.val
          (nappApiClawfsRm parentPath.val name.val clawfsFile s).2 = .ok false ∧
        Prod.fst <$> systemFileExists fuel rootfs path.val
          (restarted heap (nappApiClawfsRm parentPath.val name.val clawfsFile s).2) = .ok false) ↔
      (∀ e, secondEntry (s.claw.disk (lookupPath s.claw.disk parentPath.val)) name.val = some e →
        e.type ≠ clawfsFile) ∧ RootfsLacks fuel rootfs path.val := by
  obtain ⟨dirs, depth, h⟩ := hsound
  obtain ⟨hlive, hsplit⟩ := of_resolves_clawfs h.mounted.header h.mounted.faultless hmounted
    hresolves hsource
  obtain ⟨hend, hdirs, d, i, hd, hz, hdir, hi, htype⟩ := namedFile_slot h hnames hfile
  have hparent : lookupPath s.claw.disk parentPath.val = d := by
    rw [lookupPath, pathTokens_eq, hd]
  have hremoved : (nappApiClawfsRm parentPath.val name.val clawfsFile s).2 =
      { s with claw := dropEntry s.claw d i } := by
    rw [nappApiClawfsRm, bind_apply, onDisk, clawfsRm_file h.mounted hparent hz hi htype]
    rfl
  have hdrop : Drop s.claw (dropEntry s.claw d i) dirs d i := by
    apply h.dropEntry_drop hdir (firstSlot_some hi).1
    intro hc
    rw [htype] at hc
    exact absurd hc file_ne_directory
  have hwalk := walkedFile_drop h hend hnames hdirs hd hz hi htype hdrop
  have hafter := hdrop.edit.mounted
  rw [hparent, hremoved]
  generalize dropEntry s.claw d i = m at *
  have hnow : Prod.fst <$> systemFileExists fuel rootfs path.val { s with claw := m } = .ok false ↔
      walkedFile m.disk path.val = none ∧ RootfsLacks fuel rootfs path.val :=
    not_systemFileExists_iff (s := { s with claw := m }) hafter.header hafter.faultless hmounted
      hsplit hlive
  rw [hnow, hwalk]
  apply and_iff_left_of_imp
  intro hgone
  obtain ⟨hmount, hclaw⟩ := claw_restarted (s := { s with claw := m }) hafter.faultless heap
  generalize restarted heap { s with claw := m } = t at *
  -- A tombstone that the restart finds on disk can only hide the path.
  cases hdeleted : fileResolverIsDeleted path.val t with
  | true =>
    rw [systemFileExists_eq, resolveSystemFile_deleted fuel rootfs hmount hdeleted]
    rfl
  | false =>
    have hdisk : t.claw.disk = m.disk := by
      rw [hclaw]
      rfl
    have hfaults : t.claw.faults = noFaults := by
      rw [hclaw]
      exact hafter.faultless
    rw [not_systemFileExists_iff (by rw [hdisk]; exact hafter.header) hfaults hmount hsplit
      hdeleted, hdisk, hwalk]
    exact hgone

/-- The path of a file that `fragmented` holds. -/
def pathDA : CString := cstring fileDA

/-- The directory of that file. -/
def parentD : CString := cstring [slash, 68]

/-- The name of that file. -/
def nameA : CString := cstring [65]

/-- Make the same file in ClawFS. -/
def shadowOps : List Op := [.mkdir (cstring [slash]) (cstring [68]), .writeFile pathDA [1]]

/-- The overlay with that file. -/
def shadowing : State := { mountedState with claw := (runOps shadowOps formatted).1 }

private theorem shadowing_facts : ValidRun shadowOps (clawfsFormat blank).2 ∧
    (runOps shadowOps formatted).2 < 2 ^ 32 ∧
    (namedFile shadowing.claw.disk pathDA.val).isSome = true ∧
    secondEntry (shadowing.claw.disk (lookupPath shadowing.claw.disk parentD.val)) nameA.val =
      none ∧ Prod.fst <$> resolveSystemFile 0 none pathDA.val shadowing =
      .ok ⟨.clawfs, true, 133, 1⟩ := by
  decide +kernel

private theorem sound_shadowing : ∃ dirs depth, Sound shadowing.claw dirs depth := by
  obtain ⟨hvalid, hroom, -⟩ := shadowing_facts
  have hreach : ClawFS.Reachable (runOps shadowOps formatted).1 (runOps shadowOps formatted).2 :=
    ReachableBy.runOps shadowOps (.format blank rfl) hvalid (fun _ _ => trivial)
  obtain ⟨-, dirs, depth, hs, -⟩ := hreach.sound hroom
  dsimp only [shadowing]
  exact ⟨dirs, depth, hs⟩

/-- Without an image, the file is gone. -/
theorem removed_file_gone_iff_alone :
    (namedFile shadowing.claw.disk pathDA.val).isSome = true ∧
      Prod.fst <$> systemFileExists 0 none pathDA.val
        (nappApiClawfsRm parentD.val nameA.val clawfsFile shadowing).2 = .ok false := by
  obtain ⟨-, -, hfile, hsecond, hresolves⟩ := shadowing_facts
  refine ⟨hfile, ((removed_file_gone_iff sound_shadowing rfl 0 none pathDA parentD nameA
    (by decide) hfile hresolves rfl fun _ => none).mpr ⟨?_, ?_⟩).1⟩
  · intro e he
    rw [hsecond] at he
    cases he
  · intro v hv
    cases hv

/-- With the image, the removed file exists again at once. -/
theorem removed_file_on_image :
    Prod.fst <$> resolveSystemFile 8 (fatMount fragmented) pathDA.val shadowing =
        .ok ⟨.clawfs, true, 133, 1⟩ ∧
      Prod.fst <$> systemFileExists 8 (fatMount fragmented) pathDA.val
        (nappApiClawfsRm parentD.val nameA.val clawfsFile shadowing).2 = .ok true := by
  decide +kernel

end NasuaOS.Resolver
