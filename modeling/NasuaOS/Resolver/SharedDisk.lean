import NasuaOS.ClawFS.Sectors
import NasuaOS.Resolver.Overlay
import NasuaOS.Resolver.Persistence

/-!
# The tombstone sector and ClawFS on one disk

The resolver writes its list to sector 1024, and the bump allocator of ClawFS, which starts at sector
112, does not know of it. A run mixes operations of ClawFS with calls of the resolver. As long as
no operation is given sector 1024, it belongs to no file or directory; the first operation that is
given it makes two owners of one sector. `file_resolver.cpp:66–217,364–547`,
`clawfs.cpp:132–136,825–836`.
-/

namespace NasuaOS.Resolver

open Base Libc ClawFS Fat

variable {s s' : State} {m : Machine} {fuel : Nat} {rootfs : Option Volume}

/-- The tree is sound and nothing in it owns the tombstone sector. -/
structure Apart (m : Machine) : Prop where
  sound : ∃ dirs depth, Sound m dirs depth
  unowned : ¬ Owns m.disk tombstoneSector

/-- The calls of a run. -/
inductive Call
  | claw (op : Op)
  | formatCommands
  | clearDeletions
  | markDeleted (path : Bytes)
  | undelete (path : Bytes)

/-- Make one call. -/
def Call.run (fuel : Nat) (rootfs : Option Volume) : Call → State → Reading State
  | .claw op, s => .ok { s with claw := op.run s.claw }
  | .formatCommands, s => Prod.snd <$> Resolver.formatCommands fuel rootfs s
  | .clearDeletions, s => .ok (fileResolverClearDeletions s).2
  | .markDeleted path, s => .ok (fileResolverMarkDeleted path s).2
  | .undelete path, s => .ok (fileResolverUndelete path s).2

/-- An operation whose names and paths are in order, that does not bring the allocator to its end,
and that is not given the tombstone sector. -/
structure Spares (m : Machine) (op : Op) : Prop where
  valid : op.Valid m.disk
  room : m.nextFreeSector + largestRequest < 2 ^ 32
  sector : tombstoneSector ∉ op.sectors m

/-- The write of a copied command, when there is one. -/
structure CopySpares (fuel : Nat) (v : Volume) (path : CString) (m : Machine) : Prop where
  short : path.val.length < 128
  write : ∀ info data, fatStat fuel v path.val = .ok (some info) →
    fatReadFile fuel v path.val info.size = .ok (some data) → lookupPath m.disk path.val = 0 →
      Spares m (.writeFile path data)

/-- Every copy in a row meets its condition when its turn comes. -/
def CopiesSpare (fuel : Nat) (v : Volume) : List CString → State → Prop
  | [], _ => True
  | path :: rest, s =>
    CopySpares fuel v path s.claw ∧
      ∀ done s', copyFileToClawfs fuel (some v) path.val path.val s = .ok (done, s') →
        CopiesSpare fuel v rest s'

/-- A call whose operations of ClawFS are not given the tombstone sector. -/
def Call.Spares (fuel : Nat) (rootfs : Option Volume) : Call → State → Prop
  | .claw op, s => Resolver.Spares s.claw op
  | .formatCommands, s => ∀ v bin sbin, rootfs = some v →
      commandPaths fuel v binDirectory = .ok bin → commandPaths fuel v sbinDirectory = .ok sbin →
        CopiesSpare fuel v (bin ++ sbin) (fileResolverClearDeletions s).2
  | _, _ => True

/-- States of a run whose calls all meet `ok`: ClawFS is formatted, whatever the resolver holds, and
then calls follow. -/
inductive Reachable (fuel : Nat) (rootfs : Option Volume) (ok : Call → State → Prop) : State → Prop
  | format (s : State) (faultless : s.claw.faults = noFaults) :
      Reachable fuel rootfs ok { s with claw := (clawfsFormat s.claw).2 }
  | call {s s' : State} (c : Call) (before : Reachable fuel rootfs ok s) (meets : ok c s)
      (returns : c.run fuel rootfs s = .ok s') : Reachable fuel rootfs ok s'

private theorem Apart.write (h : Apart m) (buffer : Sector) :
    Apart { m with disk := writeDisk m.disk tombstoneSector buffer } := by
  obtain ⟨dirs, depth, hs⟩ := h.sound
  constructor
  · exact ⟨dirs, depth, hs.write_foreign buffer h.unowned (by decide) (by decide)⟩
  · rintro ⟨p, i, e, he, hmem⟩
    rw [hs.treeEntry_write_foreign buffer h.unowned (by decide)] at he
    exact h.unowned ⟨p, i, e, he, hmem⟩

private theorem Apart.mounted (h : Apart m) : Mounted m := by
  obtain ⟨dirs, depth, hs⟩ := h.sound
  exact hs.mounted

private theorem Apart.save (h : Apart s.claw) : Apart (fileResolverSaveTombstones s).2.claw := by
  rw [saveTombstones_faultless h.mounted.faultless]
  split
  · exact h.write _
  · exact h

private theorem Apart.undelete (h : Apart s.claw) (path : Bytes) :
    Apart (fileResolverUndelete path s).2.claw := by
  rw [fileResolverUndelete]
  split
  · apply Apart.save
    exact h
  · exact h

private theorem Apart.markDeleted (h : Apart s.claw) (path : Bytes) :
    Apart (fileResolverMarkDeleted path s).2.claw := by
  rw [fileResolverMarkDeleted]
  split
  · exact h
  split
  · apply Apart.save
    exact h
  split
  · apply Apart.save
    exact h
  · exact h

private theorem Apart.clearDeletions (h : Apart s.claw) :
    Apart (fileResolverClearDeletions s).2.claw := by
  apply Apart.save (s := { s with deletedFiles := [] })
  exact h

private theorem Apart.run (h : Apart m) {op : Op} (hop : Spares m op) : Apart (op.run m) := by
  obtain ⟨dirs, depth, hs⟩ := h.sound
  have hroom := h.mounted.room op hop.room
  obtain ⟨dirs', depth', hs', -⟩ := hs.after (hs.effect op hop.valid hroom)
  constructor
  · exact ⟨dirs', depth', hs'⟩
  · rw [hs.owns_run_iff op hop.valid hroom h.unowned]
    exact hop.sector

private theorem clawfsFileExists_mounted (h : Mounted s.claw) (path : Bytes) :
    clawfsFileExists path s = (lookupPath s.claw.disk path != 0, s) := by
  rw [clawfsFileExists, bind_apply, onDisk, getSectorByPath_mounted _ h]
  rfl

variable {v : Volume} {done : Bool}

private theorem Apart.copyFoundFile {path : CString} {info : EntryInfo} (h : Apart s.claw)
    (hinfo : fatStat fuel v path.val = .ok (some info)) (hcopy : CopySpares fuel v path s.claw)
    (hr : copyFoundFile fuel v path.val info path.val s = .ok (done, s')) : Apart s'.claw := by
  rw [Resolver.copyFoundFile, clawfsFileExists_mounted h.mounted] at hr
  by_cases hz : lookupPath s.claw.disk path.val = 0
  · rw [hz, bne_self_eq_false] at hr
    dsimp only at hr
    split at hr
    · cases hr
      exact h
    rw [kmalloc] at hr
    cases hheap : s.heap 0 with
    | none =>
      rw [hheap] at hr
      cases hr
      exact h
    | some memory =>
      rw [hheap, bind_eq_ok] at hr
      obtain ⟨contents, hread, hr⟩ := hr
      cases contents with
      | none =>
        cases hr
        exact h
      | some data =>
        have hwritten := h.run (hcopy.write info data hinfo hread hz)
        dsimp only [onDisk] at hr
        split at hr
        · cases hr
          exact h
        split at hr
        · next hw =>
          cases hr
          rw [Prod.mk.injEq] at hw
          rw [← hw.2]
          exact hwritten
        · next hw =>
          cases hr
          apply Apart.undelete
          rw [Prod.mk.injEq] at hw
          rw [← hw.2]
          exact hwritten
  · rw [bne_iff_ne.mpr hz] at hr
    cases hr
    exact h.undelete path.val

private theorem Apart.copyFileToClawfs {path : CString} (h : Apart s.claw)
    (hcopy : CopySpares fuel v path s.claw)
    (hr : copyFileToClawfs fuel (some v) path.val path.val s = .ok (done, s')) : Apart s'.claw := by
  rw [Resolver.copyFileToClawfs, bind_eq_ok] at hr
  obtain ⟨found, hstat, hr⟩ := hr
  cases found with
  | none =>
    cases hr
    exact h
  | some info =>
    dsimp only at hr
    split at hr
    · cases hr
      exact h
    · exact h.copyFoundFile hstat hcopy hr

private theorem Apart.copyCommands {paths : List CString} (h : Apart s.claw)
    (hcopies : CopiesSpare fuel v paths s) (hr : copyCommands fuel v paths s = .ok s') :
    Apart s'.claw := by
  induction paths generalizing s with
  | nil =>
    cases hr
    exact h
  | cons path rest ih =>
    rw [Resolver.copyCommands, bind_eq_ok] at hr
    obtain ⟨⟨done, next⟩, hcopy, hr⟩ := hr
    exact ih (h.copyFileToClawfs hcopies.1 hcopy) (hcopies.2 done next hcopy) hr

private theorem copyCommands_append {first second : List CString} {mid : State}
    (hfirst : copyCommands fuel v first s = .ok mid)
    (hsecond : copyCommands fuel v second mid = .ok s') :
    copyCommands fuel v (first ++ second) s = .ok s' := by
  induction first generalizing s with
  | nil =>
    cases hfirst
    exact hsecond
  | cons path rest ih =>
    rw [copyCommands, bind_eq_ok] at hfirst
    obtain ⟨result, hcopy, hrest⟩ := hfirst
    rw [List.cons_append, copyCommands, bind_eq_ok]
    exact ⟨result, hcopy, ih hrest⟩

private theorem Apart.formatCommands (h : Apart s.claw) (hcall : Call.formatCommands.Spares fuel rootfs s)
    (hr : formatCommands fuel rootfs s = .ok (done, s')) : Apart s'.claw := by
  cases rootfs with
  | none =>
    cases hr
    exact h
  | some v =>
    simp only [Resolver.formatCommands, bind_eq_ok] at hr
    obtain ⟨bin, hbin, mid, hmid, sbin, hsbin, last, hlast, hr⟩ := hr
    cases hr
    exact h.clearDeletions.copyCommands (hcall v bin sbin rfl hbin hsbin)
      (copyCommands_append hmid hlast)

private theorem Apart.call {c : Call} (h : Apart s.claw) (hcall : c.Spares fuel rootfs s)
    (hr : c.run fuel rootfs s = .ok s') : Apart s'.claw := by
  cases c with
  | claw op =>
    cases hr
    exact h.run hcall
  | formatCommands =>
    rw [Call.run, map_eq_pure_bind, bind_eq_ok] at hr
    obtain ⟨⟨done, next⟩, hformat, hr⟩ := hr
    cases hr
    exact h.formatCommands hcall hformat
  | clearDeletions =>
    cases hr
    exact h.clearDeletions
  | markDeleted path =>
    cases hr
    exact h.markDeleted path
  | undelete path =>
    cases hr
    exact h.undelete path

private theorem apart_clawfsFormat (h : m.faults = noFaults) : Apart (clawfsFormat m).2 := by
  obtain ⟨dirs, depth, hs, -, hnext, -⟩ := sound_clawfsFormat h
  constructor
  · exact ⟨dirs, depth, hs⟩
  · rw [hs.owns_iff]
    rintro ⟨d, i, hd, hl, hmem⟩
    have hbelow := (hs.owned_bounds hd hl hmem).2
    have hfar : firstFreeSector + defaultDirectories.length + defaultFiles.length ≤
        tombstoneSector := by decide
    exact absurd (Nat.lt_of_lt_of_le hbelow (Nat.le_trans hnext hfar)) (Nat.lt_irrefl _)

private theorem Reachable.apart (h : Reachable fuel rootfs (Call.Spares fuel rootfs) s) : Apart s.claw := by
  induction h with
  | format s faultless =>
    dsimp only
    exact apart_clawfsFormat faultless
  | call c before meets returns ih => exact ih.call meets returns

/-- `file_resolver_save_tombstones` changes no entry of ClawFS, none of its sectors, and neither the
root directory nor the header. -/
def SaveKeepsTree (s : State) : Prop :=
  (∀ p i, treeEntry (fileResolverSaveTombstones s).2.claw.disk p i = treeEntry s.claw.disk p i) ∧
    ∀ x, Owns s.claw.disk x ∨ x = clawfsRootSector ∨ x = clawfsStartLba →
      (fileResolverSaveTombstones s).2.claw.disk x = s.claw.disk x

/-- What `file_resolver_load_tombstones` loads does not depend on the sectors of files and
directories. -/
def LoadIgnoresTree (s : State) : Prop :=
  ∀ disk, (∀ x, ¬ Owns s.claw.disk x → disk x = s.claw.disk x) →
    (fileResolverLoadTombstones { s with claw.disk := disk }).2.deletedFiles =
      (fileResolverLoadTombstones s).2.deletedFiles

private theorem Apart.saveKeepsTree (h : Apart s.claw) : SaveKeepsTree s := by
  obtain ⟨dirs, depth, hs⟩ := h.sound
  rw [SaveKeepsTree, saveTombstones_faultless h.mounted.faultless]
  split
  · constructor
    · intro p i
      exact hs.treeEntry_write_foreign _ h.unowned (by decide) p i
    · intro x hx
      apply writeDisk_of_ne
      rintro rfl
      rcases hx with hx | hx | hx
      · exact h.unowned hx
      · exact absurd hx (by decide)
      · exact absurd hx (by decide)
  · exact ⟨fun _ _ => rfl, fun _ _ => rfl⟩

private theorem Apart.loadIgnoresTree (h : Apart s.claw) : LoadIgnoresTree s := by
  intro disk hdisk
  have hfaults := h.mounted.faultless
  rw [loadTombstones_faultless (s := { s with claw.disk := disk }) hfaults,
    loadTombstones_faultless hfaults]
  dsimp only
  rw [hdisk tombstoneSector h.unowned]
  cases s.heap 0 with
  | none | some memory => rfl

/-- In every state of every run in which no operation is given the tombstone sector, nothing in
ClawFS owns that sector, saving tombstones changes no file or directory, and loading them reads none.
The condition is exact: from such a state, an operation makes an owner of the sector if and only if
it is given the sector. -/
theorem tombstone_sector_apart (h : Reachable fuel rootfs (Call.Spares fuel rootfs) s) :
    ¬ Owns s.claw.disk tombstoneSector ∧ SaveKeepsTree s ∧ LoadIgnoresTree s ∧
      ∀ op : Op, op.Valid s.claw.disk → s.claw.nextFreeSector + largestRequest < 2 ^ 32 →
        (¬ Owns (op.run s.claw).disk tombstoneSector ↔ tombstoneSector ∉ op.sectors s.claw) := by
  have hapart := h.apart
  refine ⟨hapart.unowned, hapart.saveKeepsTree, hapart.loadIgnoresTree, ?_⟩
  intro op hvalid hroom
  obtain ⟨dirs, depth, hs⟩ := hapart.sound
  rw [hs.owns_run_iff op hvalid (hapart.mounted.room op hroom) hapart.unowned]

/-- A name in the root directory. -/
def fileF : CString := cstring (ascii ['/', 'f'])

/-- Make the file. -/
def createF : Op := .createFileIn (cstring [slash]) (cstring (ascii ['f']))

/-- A formatted blank disk. -/
def formattedState : State := { blankState with claw := (clawfsFormat blankState.claw).2 }

/-- The formatted disk with the new file. -/
def withF : State := { formattedState with claw := createF.run formattedState.claw }

-- One evaluation of the disk answers all that is asked of it.
private theorem withF_facts : (createF.Valid formattedState.claw.disk ∧
      formattedState.claw.nextFreeSector + largestRequest < 2 ^ 32 ∧
      tombstoneSector ∉ createF.sectors formattedState.claw) ∧
    treeEntry withF.claw.disk [] 10 = some ⟨clawfsFile, 132, 0⟩ ∧
    findEntry (withF.claw.disk clawfsRootSector) (ascii ['f']) = some ⟨clawfsFile, 132, 0⟩ ∧
    withF.claw.nextFreeSector = 133 ∧
    fileSlot (withF.claw.disk clawfsRootSector) (ascii ['f']) = some 10 ∧
    lookupPath withF.claw.disk [slash] = clawfsRootSector ∧
    (10 < slotCount ∧ used (patchSlot (withF.claw.disk clawfsRootSector) 10 133 460800) 10 = true) ∧
    entryAt (patchSlot (withF.claw.disk clawfsRootSector) 10 133 460800) 10 =
      ⟨clawfsFile, 133, 460800⟩ := by
  decide +kernel

private theorem reachable_withF : Reachable 0 none (Call.Spares 0 none) withF := by
  have hspares : Spares formattedState.claw createF :=
    ⟨withF_facts.1.1, withF_facts.1.2.1, withF_facts.1.2.2⟩
  have hstart : Reachable 0 none (Call.Spares 0 none) formattedState := .format blankState rfl
  apply Reachable.call (.claw createF) hstart
  · exact hspares
  · rw [Call.run, withF]

/-- Making a file in a fresh disk does not touch the tombstone sector. -/
theorem tombstone_sector_apart_withF :
    Reachable 0 none (Call.Spares 0 none) withF ∧
      treeEntry withF.claw.disk [] 10 = some ⟨clawfsFile, 132, 0⟩ ∧ SaveKeepsTree withF :=
  ⟨reachable_withF, withF_facts.2.1, (tombstone_sector_apart reachable_withF).2.1⟩

private theorem writeFile_patchEntry (h : Mounted m) {path parentPath fileName data : Bytes}
    {d i target next : Nat} {e : CLAWFSEntry} (hlen : data.length ≤ clawfsMaxFileSize)
    (hs : splitFilePath path = some (parentPath, fileName)) (hd : lookupPath m.disk parentPath = d)
    (hz : d ≠ 0) (he : findEntry (m.disk d) fileName = some e) (ht : e.type = clawfsFile)
    (hc : e.entryCount ≤ clawfsMaxFileSize)
    (htarget : targetFor m.nextFreeSector e (sectorsFor data.length) = some (target, next))
    (hslot : fileSlot (m.disk d) fileName = some i) :
    (clawfsWriteFile path data m).2 = patchEntry m d i target next data := by
  have hcond : ¬ (e.type ≠ clawfsFile ∨ clawfsMaxFileSize < e.entryCount) := by
    rintro (hne | hlt)
    · exact hne ht
    · exact Nat.not_lt.mpr hc hlt
  rw [clawfsWriteFile_mounted m h, if_neg (Nat.not_lt.mpr hlen), hs]
  dsimp only
  rw [hd, if_neg hz, he]
  dsimp only
  rw [storeContents_initialized m h.faultless h.initialized, if_neg hcond, htarget]
  rw [hslot]
  rfl

private theorem exists_ones (n : Nat) :
    ∃ data : Bytes, data.length = n ∧ ∀ k < n, data.getD k 0 = 1 := by
  refine ⟨List.replicate n 1, List.length_replicate, ?_⟩
  intro k hk
  exact List.getD_replicate _ hk

section Overwritten

variable {data : Bytes}

/-- The state after contents were written to the file. -/
def overwritten (data : Bytes) : State :=
  { withF with claw := (Op.writeFile fileF data).run withF.claw }

variable (hlen : data.length = 460800)
include hlen

private theorem claw_overwritten :
    (overwritten data).claw = patchEntry withF.claw clawfsRootSector 10 133 1033 data := by
  have hparts : splitFilePath fileF.val = some ([slash], ascii ['f']) := by decide
  obtain ⟨-, -, hentry, hnext, hslot, hroot, -⟩ := withF_facts
  have htarget : targetFor withF.claw.nextFreeSector ⟨clawfsFile, 132, 0⟩
      (sectorsFor data.length) = some (133, 1033) := by
    rw [hlen, hnext]
    decide
  apply writeFile_patchEntry reachable_withF.apart.mounted _ hparts hroot (by decide) hentry rfl
    (by decide) htarget hslot
  rw [hlen]
  decide

private theorem faultless_overwritten : (overwritten data).claw.faults = noFaults := by
  rw [claw_overwritten hlen]
  dsimp only [patchEntry]
  exact reachable_withF.apart.mounted.faultless

private theorem sector_overwritten :
    (overwritten data).claw.disk tombstoneSector = chunkAt data (tombstoneSector - 133) := by
  have hsectors : sectorsFor 460800 = 900 := by decide
  rw [claw_overwritten hlen]
  dsimp only [patchEntry]
  rw [writeDisk_of_ne _ _ _ _ (by decide), hlen, hsectors,
    writeRange_apply _ _ _ _ _ (by decide), if_pos (by decide)]

private theorem owns_overwritten : Owns (overwritten data).claw.disk tombstoneSector := by
  have hroot : (overwritten data).claw.disk clawfsRootSector =
      patchSlot (withF.claw.disk clawfsRootSector) 10 133 460800 := by
    rw [claw_overwritten hlen]
    dsimp only [patchEntry]
    rw [writeDisk_same, hlen]
  have hentry : Live (overwritten data).claw.disk clawfsRootSector 10 ∧
      entryAt ((overwritten data).claw.disk clawfsRootSector) 10 = ⟨clawfsFile, 133, 460800⟩ := by
    rw [Live, hroot]
    exact withF_facts.2.2.2.2.2.2
  refine ⟨[], 10, _, (treeEntry_eq_some_iff _ _ _ _).mpr ⟨clawfsRootSector, rfl, hentry⟩, ?_⟩
  rw [owned, Finset.mem_Ico]
  decide

end Overwritten

/-- A file of 900 sectors in a fresh disk lies over the tombstone sector: saving tombstones destroys
its contents, and loading them reads the contents. -/
theorem large_file_over_tombstones :
    ∃ s, Reachable 0 none (fun _ _ => True) s ∧ Owns s.claw.disk tombstoneSector ∧
      ¬ SaveKeepsTree s ∧ ¬ LoadIgnoresTree s := by
  obtain ⟨data, hlen, hones⟩ := exists_ones 460800
  have hstart : Reachable 0 none (fun _ _ => True) formattedState := .format blankState rfl
  have hwithF : Reachable 0 none (fun _ _ => True) withF :=
    .call (.claw createF) hstart trivial (by rw [Call.run, withF])
  have hreach : Reachable 0 none (fun _ _ => True) (overwritten data) :=
    .call (.claw (.writeFile fileF data)) hwithF trivial (by rw [Call.run, overwritten])
  have howns := owns_overwritten hlen
  have hfaults := faultless_overwritten hlen
  have hheap : (overwritten data).heap 0 = some fun _ => 0 := rfl
  have hfiles : (overwritten data).deletedFiles = [] := rfl
  have hbyte (k : Nat) (hk : k < 512) :
      ((overwritten data).claw.disk tombstoneSector).byte k = 1 := by
    rw [sector_overwritten hlen, chunkAt, Buffer.byte_ofFn _ _ hk]
    apply hones
    unfold tombstoneSector
    omega
  generalize overwritten data = s at *
  refine ⟨s, hreach, howns, ?_, ?_⟩
  · rintro ⟨-, hsame⟩
    have hsector := hsame tombstoneSector (.inl howns)
    rw [saveTombstones_faultless hfaults, hheap, Option.isSome_some, if_pos rfl] at hsector
    dsimp only [State.saved] at hsector
    rw [writeDisk_same, hfiles] at hsector
    have hone := hbyte 0 (by decide)
    rw [← hsector] at hone
    exact absurd hone (by decide)
  · intro hsame
    -- Without the contents, nothing is loaded.
    have hload := hsame (writeDisk s.claw.disk tombstoneSector Buffer.zero) (by
      intro x hx
      apply writeDisk_of_ne
      rintro rfl
      exact hx howns)
    have hempty : tombstoneAt (Buffer.zero : Sector).byte 0 = none := by decide
    rw [loadTombstones_quiet hfaults hheap quiet_zero, loadTombstones_quiet
      (s := { s with claw.disk := writeDisk s.claw.disk tombstoneSector Buffer.zero })
      hfaults hheap quiet_zero] at hload
    dsimp only at hload
    rw [writeDisk_same, hempty, tombstoneAt, hbyte _ (by decide), hbyte _ (by decide),
      if_pos (by decide)] at hload
    cases hload

end NasuaOS.Resolver
