import NasuaOS.ClawFS.Reboot
import NasuaOS.ClawFS.Faults
import NasuaOS.ClawFS.Sectors

/-!
# Growing a file

Contents that need more sectors than a file owns go to the sectors at the allocator, and the
directory is written last (`clawfs.cpp:825–870`). Until then nothing below the allocator changes, so
a store that fails leaves every file as it was, as long as the allocator is past every sector in
use. Operations keep it there; a restart rebuilds it from the first 32 levels of the tree only.
-/

namespace NasuaOS.ClawFS

open Base Libc List

variable {m : Machine} {dirs : Nat → Prop} {depth : Nat → Nat}

/-- A restart loses the allocator, and `clawfs_exists` rebuilds it. -/
inductive Event
  | perform (op : Op)
  | restart

/-- The machine after an event. -/
def Event.run : Event → Machine → Machine
  | .perform op, m => op.run m
  | .restart, m => (clawfsExists (reboot m)).2

/-- Operations are valid ones. -/
def Event.Valid (disk : Disk) : Event → Prop
  | .perform op => op.Valid disk
  | .restart => True

/-- Sectors that an event took from the allocator. -/
def Event.allocated : Event → Machine → Nat
  | .perform op, m => allocatedBy m (op.run m)
  | .restart, _ => 0

/-- States of a run with restarts whose events all meet `ok`, with the number of sectors allocated
so far. -/
inductive Lived (ok : Machine → Event → Prop) : Machine → Nat → Prop
  | format (m : Machine) (faultless : m.faults = noFaults) :
      Lived ok (clawfsFormat m).2 (clawfsFormat m).2.nextFreeSector
  | step {m : Machine} {total : Nat} (event : Event) (before : Lived ok m total)
      (valid : event.Valid m.disk) (meets : ok m event) :
      Lived ok (event.run m) (total + event.allocated m)

/-- No entry lies below the levels that a rebuild looks at. -/
def Shallow (disk : Disk) : Prop :=
  ∀ p i e, treeEntry disk p i = some e → p.length < rebuildLevels

/-- A restart meets a shallow tree. -/
def Event.Charged (m : Machine) : Event → Prop
  | .perform _ => True
  | .restart => Shallow m.disk

private theorem Sound.restart (h : Sound m dirs depth) (hshallow : Shallow m.disk) :
    Sound (Event.restart.run m) dirs depth := by
  have hrun : Event.restart.run m =
      { m with nextFreeSector := rebuilt m.disk, allocatorInitialized := true } := by
    rw [Event.run, clawfsExists_reboot h.mounted]
  have hbounds := h.rebuilt_bounds
  rw [hrun]
  refine ⟨⟨h.mounted.header, rfl, h.mounted.faultless⟩, hbounds.1,
    Nat.lt_of_le_of_lt hbounds.2 h.high, h.root, h.rootDepth, ?_, h.children, h.parents, h.apart⟩
  intro d i hd hl
  have hok := h.entries d i hd hl
  obtain ⟨p, hp⟩ := h.exists_dirAt hd
  have hdeep : depth d < rebuildLevels := by
    rw [(h.dirAt_dir hp).2]
    exact hshallow p i _ ((treeEntry_eq_some_iff ..).mpr ⟨d, hp, hl, rfl⟩)
  exact ⟨hok.terminated, hok.type, hok.lower, h.entry_le_rebuilt hd hl hdeep, hok.size⟩

variable {total : Nat}

/-- What formatting establishes and every operation keeps holds of the directories in a run whose
restarts meet shallow trees, and the allocator is past every sector in use. -/
theorem Lived.invariant {ok : Machine → Event → Prop} {Q : Disk → (Nat → Prop) → Prop}
    (hrestart : ∀ m, ok m .restart → Shallow m.disk) (hformat : ∀ m : Machine, m.faults = noFaults →
      ∃ dirs depth, Sound (clawfsFormat m).2 dirs depth ∧ Q (clawfsFormat m).2.disk dirs)
    (hperform : ∀ (m m' : Machine) dirs depth op, Sound m dirs depth → Q m.disk dirs →
      ok m (.perform op) → Effect m m' dirs depth op →
        ∃ dirs' depth', Sound m' dirs' depth' ∧ Q m'.disk dirs') (h : Lived ok m total)
    (ht : total < 2 ^ 32) :
    m.nextFreeSector ≤ total ∧ ∃ dirs depth, Sound m dirs depth ∧ Q m.disk dirs := by
  induction h with
  | format m faultless => exact ⟨le_rfl, hformat m faultless⟩
  | @step m total event before valid meets ih =>
    obtain ⟨hn, dirs, depth, hs, hq⟩ := ih (by omega)
    cases event with
    | perform op =>
      change total + allocatedBy m (op.run m) < 2 ^ 32 at ht
      have hroom : m.nextFreeSector + allocatedBy m (op.run m) < 2 ^ 32 := by omega
      obtain ⟨dirs', depth', hs', hq'⟩ :=
        hperform m _ dirs depth op hs hq meets (hs.effect op valid hroom)
      refine ⟨?_, dirs', depth', hs', hq'⟩
      have hhigh := hs'.high
      change (op.run m).nextFreeSector ≤ total + allocatedBy m (op.run m)
      rw [allocatedBy] at hroom ⊢
      omega
    | restart =>
      have hs' := hs.restart (hrestart m meets)
      have hrun := clawfsExists_reboot hs.mounted
      refine ⟨?_, dirs, depth, hs', ?_⟩
      · rw [Event.run, hrun]
        exact Nat.le_trans hs.rebuilt_bounds.2 hn
      · rw [Event.run, hrun]
        exact hq

private theorem Lived.sound (h : Lived Event.Charged m total) (ht : total < 2 ^ 32) :
    m.nextFreeSector ≤ total ∧ ∃ dirs depth, Sound m dirs depth := by
  obtain ⟨hn, dirs, depth, hs, -⟩ := h.invariant (Q := fun _ _ => True) (fun _ hmeets => hmeets)
    (fun m hf => by
      obtain ⟨dirs, depth, hs, -⟩ := sound_clawfsFormat hf
      exact ⟨dirs, depth, hs, trivial⟩)
    (fun m m' dirs depth op hs _ _ he => by
      obtain ⟨dirs', depth', hs', -⟩ := hs.after he
      exact ⟨dirs', depth', hs', trivial⟩) ht
  exact ⟨hn, dirs, depth, hs⟩

private theorem ReachableBy.lived {ok : Op → Prop} {meets : Machine → Event → Prop}
    (hmeets : ∀ m op, ok op → meets m (.perform op)) (h : ReachableBy ok m total) :
    Lived meets m total := by
  induction h with
  | format m faultless => exact .format m faultless
  | @step m total op before valid meets ih =>
    exact .step (.perform op) ih valid (hmeets m op meets)

/-- Nothing below the allocator of `m` changed. -/
structure KeepsUsed (m m' : Machine) : Prop where
  initialized : m'.allocatorInitialized = m.allocatorInitialized
  used : ∀ s, s < m.nextFreeSector → m'.disk s = m.disk s

/-- A regular file at a path below directories. -/
structure FileBelow (m : Machine) (path : Bytes) (e : CLAWFSEntry) : Prop where
  through : ∀ parentPath fileName, splitFilePath path = some (parentPath, fileName) →
    ThroughDirs m.disk clawfsRootSector (pathTokens parentPath)
  entry : fileEntry m.disk path = some e

instance (m : Machine) (path : Bytes) (e : CLAWFSEntry) : Decidable (FileBelow m path e) :=
  decidable_of_iff
    ((∀ parts ∈ splitFilePath path, ThroughDirs m.disk clawfsRootSector (pathTokens parts.1)) ∧
      fileEntry m.disk path = some e)
    ⟨fun h => ⟨fun parentPath fileName hs => h.1 (parentPath, fileName) hs, h.2⟩,
      fun h => ⟨fun parts hs => h.through parts.1 parts.2 hs, h.entry⟩⟩

private theorem FileBelow.slot {path : CString} {e : CLAWFSEntry} (hf : FileBelow m path.val e)
    (h : Sound m dirs depth) :
    ∃ parentPath fileName i, splitFilePath path.val = some (parentPath, fileName) ∧
      DirPath m.disk parentPath ∧ lookupPath m.disk parentPath ≠ 0 ∧
      dirs (lookupPath m.disk parentPath) ∧
      findEntry (m.disk (lookupPath m.disk parentPath)) fileName = some e ∧
      Live m.disk (lookupPath m.disk parentPath) i ∧
      fileSlot (m.disk (lookupPath m.disk parentPath)) fileName = some i ∧
      entryAt (m.disk (lookupPath m.disk parentPath)) i = e ∧ e.type = clawfsFile := by
  have hentry := hf.entry
  rw [fileEntry, Option.bind_eq_some_iff] at hentry
  obtain ⟨⟨parentPath, fileName⟩, hsplit, hentry⟩ := hentry
  have hp : DirPath m.disk parentPath :=
    ⟨splitFilePath_parent hsplit, hf.through parentPath fileName hsplit⟩
  obtain ⟨hne, -, hsub⟩ := splitFilePath_name hsplit
  have h0 : (0 : UInt8) ∉ fileName := fun hc => path.property (hsub 0 hc)
  split at hentry
  · cases hentry
  · next hz =>
    obtain ⟨e', hfound, he⟩ := Option.bind_eq_some_iff.mp hentry
    obtain ⟨htype, he⟩ := Option.ite_none_right_eq_some.mp he
    cases he
    obtain ⟨i, hslot, hl, -, rfl, -⟩ := findEntry_some hfound
    exact ⟨parentPath, fileName, i, hsplit, hp, hz, (h.lookupPath_dir hp hz).1, hfound, hl,
      fileSlot_of_findSlot h0 hne hslot htype, rfl, htype⟩

section Kept

variable {m' : Machine}

section

variable (hk : KeepsUsed m m')

include hk

section

variable (h : Sound m dirs depth)

include h

private theorem KeepsUsed.mounted : Mounted (m'.meeting noFaults) := by
  refine ⟨?_, hk.initialized.trans h.mounted.initialized, rfl⟩
  change headerValid (m'.disk clawfsStartLba) = true
  rw [hk.used _ (Nat.lt_of_lt_of_le (by decide) h.low)]
  exact h.mounted.header

private theorem KeepsUsed.dir {x : Nat} (hx : dirs x) : m'.disk x = m.disk x :=
  hk.used x (h.dir_bounds hx).2

private theorem KeepsUsed.contents {d i : Nat} (hd : dirs d) (hl : Live m.disk d i)
    (ht : (entryAt (m.disk d) i).type = clawfsFile) :
    fileContents m'.disk (entryAt (m.disk d) i) = fileContents m.disk (entryAt (m.disk d) i) := by
  have hup := (h.entries d i hd hl).upper
  apply fileContents_congr _ _ _ ht (Nat.le_trans hup (Nat.le_of_lt h.high))
  intro s hs
  rw [owned, Finset.mem_Ico] at hs
  exact hk.used s (by omega)

private theorem KeepsUsed.treeEntry {p : List Nat} {i : Nat} {f : CLAWFSEntry}
    (hf : treeEntry m.disk p i = some f) : ClawFS.treeEntry m'.disk p i = some f ∧
      (f.type = clawfsFile → fileContents m'.disk f = fileContents m.disk f) := by
  obtain ⟨d, hd, hl, rfl⟩ := (treeEntry_eq_some_iff ..).mp hf
  refine ⟨?_, hk.contents h (h.dirAt_dir hd).1 hl⟩
  rw [h.treeEntry_congr fun x hx => hk.dir h hx]
  exact hf

private theorem KeepsUsed.readFile {path : CString} {e : CLAWFSEntry} (hf : FileBelow m path.val e)
    (capacity : Nat) : (clawfsReadFile path.val capacity (m'.meeting noFaults)).1 =
      (clawfsReadFile path.val capacity m).1 := by
  obtain ⟨parentPath, fileName, i, hsplit, hp, -, hd, -, hl, -, rfl, ht⟩ := hf.slot h
  have hentry : fileEntry (m'.meeting noFaults).disk path.val =
      some (entryAt (m.disk (lookupPath m.disk parentPath)) i) := by
    rw [← hf.entry]
    exact h.fileEntry_congr (fun x hx => hk.dir h hx) hsplit hp
  have hlength : fileLength (m'.meeting noFaults).disk
      (entryAt (m.disk (lookupPath m.disk parentPath)) i) =
        fileLength m.disk (entryAt (m.disk (lookupPath m.disk parentPath)) i) := by
    have hok := h.entries _ i hd hl
    have hpos := ownedCount_pos (entryAt (m.disk (lookupPath m.disk parentPath)) i)
    have hup := hok.upper
    have hsame : (m'.meeting noFaults).disk _ = m.disk _ :=
      hk.used (entryAt (m.disk (lookupPath m.disk parentPath)) i).dataSector (by omega)
    rw [fileLength, fileLength, hsame]
  have hcontents := hk.contents h hd hl ht
  rw [clawfsReadFile_mounted _ (hk.mounted h), clawfsReadFile_mounted _ h.mounted, hentry, hf.entry]
  dsimp only
  have hcontents' : fileContents (m'.meeting noFaults).disk _ = _ := hcontents
  rw [hlength, hcontents']

end

end

end Kept

private theorem Sound.growing_fails (h : Sound m dirs depth) {path : CString} {e : CLAWFSEntry}
    (hf : FileBelow m path.val e) {data : Bytes}
    (hmore : sectorsFor e.entryCount < sectorsFor data.length) {faults : Nat → Bool}
    (hreads : Succeed faults (readsOf path.val))
    (hfalse : (clawfsWriteFile path.val data (m.meeting faults)).1 = false) :
    KeepsUsed m (clawfsWriteFile path.val data (m.meeting faults)).2 := by
  by_cases hlen : clawfsMaxFileSize < data.length
  · rw [clawfsWriteFile, if_pos hlen]
    exact ⟨rfl, fun _ _ => rfl⟩
  obtain ⟨parentPath, fileName, i, hsplit, hp, hz, hd, hfound, hl, hslot, rfl, ht⟩ := hf.slot h
  have hof : readsOf path.val = readsBefore parentPath := by
    rw [readsOf, hsplit]
    rfl
  rw [hof] at hreads
  rw [clawfsWriteFile_reads h.mounted (Nat.not_lt.mp hlen) hsplit hz hfound hreads] at hfalse ⊢
  have hstores := storeContents_meets h.mounted.initialized data (fun _ => hslot)
    (later faults (readsBefore parentPath))
  have hcount := written_le (later faults (readsBefore parentPath)) (sectorsFor data.length)
  generalize storeContents (lookupPath m.disk parentPath) _ fileName _ data _ = result at *
  cases hstores with
  | refused => exact ⟨rfl, fun _ _ => rfl⟩
  | stopped after _ htarget =>
    generalize written (later faults (readsBefore parentPath)) (sectorsFor data.length) = count at *
    refine ⟨rfl, fun s hs => ?_⟩
    -- The chosen sectors start at the allocator.
    have hroom := h.target hd hl ht htarget
    have hhigh := hroom.high
    rw [targetFor, if_neg (Nat.not_le.mpr hmore)] at htarget
    obtain ⟨-, hchosen⟩ := Option.ite_none_left_eq_some.mp htarget
    cases hchosen
    change (partly m m.nextFreeSector (m.nextFreeSector + sectorsFor data.length) data count).disk s =
      m.disk s
    rw [partly_disk, writeRange_apply _ _ _ _ _ (by omega), if_neg (by omega)]
  | stored => cases hfalse

/-- In every run whose restarts meet shallow trees, a store that needs more sectors than the file
owns and fails leaves the file readable as before, and every other file as it was. -/
theorem growing_write_keeps_files {total : Nat} (h : Lived Event.Charged m total)
    (ht : total < 2 ^ 32) (path : CString) {e : CLAWFSEntry} (hf : FileBelow m path.val e)
    (data : Bytes) (hmore : sectorsFor e.entryCount < sectorsFor data.length)
    (faults : Nat → Bool) (hreads : Succeed faults (readsOf path.val))
    (hfalse : (clawfsWriteFile path.val data (m.meeting faults)).1 = false) :
    (∀ capacity, fileLength m.disk e ≤ capacity → (clawfsReadFile path.val capacity
        ((clawfsWriteFile path.val data (m.meeting faults)).2.meeting noFaults)).1 =
          ⟨true, some (fileLength m.disk e), fileContents m.disk e⟩) ∧
    (∀ (other : CString) f, FileBelow m other.val f → ∀ capacity, (clawfsReadFile other.val capacity
        ((clawfsWriteFile path.val data (m.meeting faults)).2.meeting noFaults)).1 =
          (clawfsReadFile other.val capacity m).1) ∧
    ∀ p i f, treeEntry m.disk p i = some f →
      treeEntry (clawfsWriteFile path.val data (m.meeting faults)).2.disk p i = some f ∧
        (f.type = clawfsFile →
          fileContents (clawfsWriteFile path.val data (m.meeting faults)).2.disk f =
            fileContents m.disk f) := by
  obtain ⟨-, dirs, depth, hs⟩ := h.sound ht
  have hk := hs.growing_fails hf hmore hreads hfalse
  refine ⟨?_, fun other f hother capacity => hk.readFile hs hother capacity,
    fun p i f hentry => hk.treeEntry hs hentry⟩
  intro capacity hcapacity
  obtain ⟨parentPath, fileName, i, -, -, -, hd, -, hl, -, rfl, -⟩ := hf.slot hs
  have hsize := (hs.entries _ i hd hl).size
  rw [hk.readFile hs hf, clawfsReadFile_mounted _ hs.mounted, hf.entry]
  dsimp only
  rw [if_neg (Nat.not_lt.mpr hsize), if_neg (Nat.not_lt.mpr hcapacity)]

/-- On a fresh disk, 513 bytes for `/proc/cpuinfo` whose second sector cannot be written leave it
empty as it was. -/
theorem growing_write_keeps_files_cpuinfo :
    (clawfsReadFile cpuinfoPath.val 0 ((clawfsWriteFile cpuinfoPath.val (replicate 513 65)
        ((clawfsFormat blank).2.meeting (failingAt (readsOf cpuinfoPath.val + 1)))).2.meeting
          noFaults)).1 = ⟨true, some 0, []⟩ := by
  have hroom := nextFreeSector_clawfsFormat_lt (m := blank) rfl
  have hrun : FileBelow (clawfsFormat blank).2 cpuinfoPath.val ⟨clawfsFile, 127, 0⟩ ∧
      (clawfsWriteFile cpuinfoPath.val (replicate 513 65)
        ((clawfsFormat blank).2.meeting (failingAt (readsOf cpuinfoPath.val + 1)))).1 = false ∧
      fileLength (clawfsFormat blank).2.disk ⟨clawfsFile, 127, 0⟩ = 0 := by decide +kernel
  obtain ⟨hfile, hfalse, hlength⟩ := hrun
  have hreads : Succeed (failingAt (readsOf cpuinfoPath.val + 1)) (readsOf cpuinfoPath.val) := by
    intro k hk
    simp only [failingAt, beq_eq_false_iff_ne]
    omega
  have h := (growing_write_keeps_files (.format blank rfl) hroom cpuinfoPath hfile
    (replicate 513 65) (by rw [length_replicate]; decide) _ hreads hfalse).1 0
    (Nat.le_of_eq hlength)
  rw [h, fileContents, hlength]
  rfl

/-- The file `f` in the innermost of `n` nested directories. -/
def nestedFile (n : Nat) : CString := cstring ((nestedPath n).val ++ ascii ['/', 'f'])

/-- A disk with a file in 33 nested directories, after a restart. -/
def restarted : Machine :=
  Event.restart.run
    (runOps (nestedMkdirs 33 ++ [.writeFile (nestedFile 33) (ascii ['x'])]) formatted).1

set_option maxRecDepth 100000 in
/-- The rebuilt allocator stands at the innermost of 33 nested directories. Growing
`/proc/cpuinfo` writes there before it fails, and the file in that directory is lost. -/
theorem growing_write_loses_file :
    ∃ m total e f, Lived (fun _ _ => True) m total ∧ total < 2 ^ 32 ∧
      FileBelow m cpuinfoPath.val e ∧
      sectorsFor e.entryCount < sectorsFor (replicate 513 (65 : UInt8)).length ∧
      Succeed (failingAt (readsOf cpuinfoPath.val + 1)) (readsOf cpuinfoPath.val) ∧
      (clawfsWriteFile cpuinfoPath.val (replicate 513 65)
        (m.meeting (failingAt (readsOf cpuinfoPath.val + 1)))).1 = false ∧
      FileBelow m (nestedFile 33).val f ∧
      (clawfsReadFile (nestedFile 33).val 1 m).1 = ⟨true, some 1, ascii ['x']⟩ ∧
      (clawfsReadFile (nestedFile 33).val 1
        ((clawfsWriteFile cpuinfoPath.val (replicate 513 65)
          (m.meeting (failingAt (readsOf cpuinfoPath.val + 1)))).2.meeting noFaults)).1 =
            ⟨false, none, []⟩ := by
  have hrun : ValidRun (nestedMkdirs 33 ++ [.writeFile (nestedFile 33) (ascii ['x'])])
        (clawfsFormat blank).2 ∧
      (runOps (nestedMkdirs 33 ++ [.writeFile (nestedFile 33) (ascii ['x'])]) formatted).2 <
        2 ^ 32 ∧
      FileBelow restarted cpuinfoPath.val ⟨clawfsFile, 127, 0⟩ ∧
      (clawfsWriteFile cpuinfoPath.val (replicate 513 65)
        (restarted.meeting (failingAt (readsOf cpuinfoPath.val + 1)))).1 = false ∧
      FileBelow restarted (nestedFile 33).val ⟨clawfsFile, 165, 1⟩ ∧
      (clawfsReadFile (nestedFile 33).val 1 restarted).1 = ⟨true, some 1, ascii ['x']⟩ ∧
      (clawfsReadFile (nestedFile 33).val 1
        ((clawfsWriteFile cpuinfoPath.val (replicate 513 65)
          (restarted.meeting (failingAt (readsOf cpuinfoPath.val + 1)))).2.meeting noFaults)).1 =
            ⟨false, none, []⟩ := by decide +kernel
  obtain ⟨hvalid, hroom, hfile, hfalse, hother, hbefore, hafter⟩ := hrun
  have hlived : Lived (fun _ _ => True) _ _ :=
    ReachableBy.lived (fun _ _ _ => trivial)
      (ReachableBy.runOps _ (.format blank rfl) hvalid (fun _ _ => trivial) : Reachable _ _)
  have hreads : Succeed (failingAt (readsOf cpuinfoPath.val + 1)) (readsOf cpuinfoPath.val) := by
    intro k hk
    simp only [failingAt, beq_eq_false_iff_ne]
    omega
  have hstep := Lived.step .restart hlived trivial trivial
  rw [Event.allocated, Nat.add_zero] at hstep
  change Lived _ restarted _ at hstep
  generalize restarted = r at *
  exact ⟨r, _, _, _, hstep, hroom, hfile, by rw [length_replicate]; decide, hreads, hfalse,
    hother, hbefore, hafter⟩

end NasuaOS.ClawFS
