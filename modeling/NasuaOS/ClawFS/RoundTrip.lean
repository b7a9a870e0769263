import NasuaOS.ClawFS.Runs

/-!
# Write, then read

What `clawfs_write_file` stored is what `clawfs_read_file` returns, and nothing else in the tree
has moved: directories keep their slots, other files keep their contents. An empty file has no
recorded length and is read through the scan for the first zero byte.
`clawfs.cpp:590–723,779–870`.
-/

namespace NasuaOS.ClawFS

open Base Libc List

variable {m m' : Machine} {dirs : Nat → Prop} {depth : Nat → Nat} {d i : Nat}

private theorem legacyLength_chunkAt_nil : legacyLength (chunkAt [] 0) = 0 := by
  rw [legacyLength, range_succ_eq_map]
  rfl

private theorem fileContents_stored (disk : Disk) (target : Nat) (data : Bytes)
    (ht : target + sectorsFor data.length ≤ 2 ^ 32)
    (hdisk : ∀ j, j < sectorsFor data.length → disk (target + j) = chunkAt data j) :
    fileLength disk ⟨clawfsFile, target, data.length⟩ = data.length ∧
      fileContents disk ⟨clawfsFile, target, data.length⟩ = data := by
  have hlength : fileLength disk ⟨clawfsFile, target, data.length⟩ = data.length := by
    rw [fileLength]
    split
    · next hz =>
      have h0 := hdisk 0 (by rw [sectorsFor]; split <;> omega)
      simp only [Nat.add_zero, length_eq_zero_iff] at h0 hz
      subst hz
      rw [h0]
      exact legacyLength_chunkAt_nil
    · rfl
  refine ⟨hlength, ?_⟩
  rw [fileContents_eq_map, hlength]
  apply ext_getElem
  · rw [length_map, length_range]
  · intro j _ hj
    have hsector : j / 512 < sectorsFor data.length := by
      rw [sectorsFor]
      split <;> omega
    have hmod : (target + j / 512) % 2 ^ 32 = target + j / 512 := Nat.mod_eq_of_lt (by omega)
    rw [getElem_map, getElem_range, hmod, hdisk _ hsector, chunkAt,
      Buffer.byte_ofFn _ _ (Nat.mod_lt _ (by decide)), Nat.div_add_mod]
    exact getD_eq_getElem _ _ hj

private theorem legacyLength_le (buffer : Sector) : legacyLength buffer ≤ 512 := by
  have hl := (takeWhile_sublist (fun k => buffer.byte k != 0) (l := range 512)).length_le
  rw [length_range] at hl
  exact hl

/-- Contents depend on the sectors of the file only. -/
theorem fileContents_congr (disk disk' : Disk) (e : CLAWFSEntry)
    (ht : e.type = clawfsFile) (hr : e.dataSector + ownedCount e ≤ 2 ^ 32)
    (h : ∀ s ∈ owned e, disk' s = disk s) : fileContents disk' e = fileContents disk e := by
  have hin (j : Nat) (hj : j < ownedCount e) : disk' (e.dataSector + j) =
    disk (e.dataSector + j) := by
    apply h
    rw [owned, Finset.mem_Ico]
    omega
  have hlength : fileLength disk' e = fileLength disk e := by
    have h0 := hin 0 (ownedCount_pos e)
    rw [Nat.add_zero] at h0
    rw [fileLength, fileLength, h0]
  have hcount : (fileLength disk e + 511) / 512 ≤ ownedCount e := by
    have hlegacy := legacyLength_le (disk e.dataSector)
    rw [ownedCount_file ht, sectorsFor, fileLength]
    split
    · omega
    · exact le_rfl
  rw [fileContents_eq_map, fileContents_eq_map, hlength]
  apply map_congr_left
  intro j hj
  have hlt := mem_range.mp hj
  rw [Nat.mod_eq_of_lt (by omega), hin _ (by omega)]

private theorem Edit.dirAt_eq (he : Edit m m' dirs d i) (h : Sound m dirs depth)
    (hold : Live m.disk d i → (entryAt (m.disk d) i).type ≠ clawfsDirectory)
    (hnew : (entryAt (m'.disk d) i).type ≠ clawfsDirectory) (p : List Nat) :
    dirAt m'.disk p = dirAt m.disk p := by
  apply walk_congr (childDir m.disk) (childDir m'.disk) clawfsRootSector p h.root
  · intro a j b ha hb
    exact (h.childDir_dir ha hb).1
  · intro a j ha
    by_cases hne : (a, j) = (d, i)
    · cases hne
      rw [childDir, childDir, if_neg (fun hc => hnew hc.2), if_neg (fun hc => hold hc.1 hc.2)]
    · by_cases hl : Live m.disk a j
      · simp only [childDir, he.entryAt_eq ha hl.1 hne, he.live_iff ha hne]
      · rw [childDir, childDir, if_neg (fun hc => hl ((he.live_iff ha hne).mp hc.1)),
          if_neg (fun hc => hl hc.1)]

/-- Everything but slot `i` of the directory in sector `d` is as it was: the directories of the
tree, the bytes of their other slots, and the contents of the files there. -/
structure Undisturbed (disk disk' : Disk) (d i : Nat) : Prop where
  directories : ∀ p, dirAt disk' p = dirAt disk p
  slots : ∀ p x j, dirAt disk p = some x → j < slotCount → (x, j) ≠ (d, i) →
    SameSlot (disk x) (disk' x) j
  files : ∀ p x j, dirAt disk p = some x → Live disk x j → (x, j) ≠ (d, i) →
    (entryAt (disk x) j).type = clawfsFile →
      fileContents disk' (entryAt (disk x) j) = fileContents disk (entryAt (disk x) j)

private theorem Put.undisturbed (hput : Put m m' dirs d i) (h : Sound m dirs depth)
    (ht : (entryAt (m'.disk d) i).type = clawfsFile) : Undisturbed m.disk m'.disk d i where
  directories := by
    apply hput.edit.dirAt_eq h hput.old
    rw [ht]
    exact file_ne_directory
  slots := by
    intro p x j hp hj hne
    exact hput.sameSlot (h.dirAt_dir hp).1 hj hne
  files := by
    intro p x j hp hl hne htx
    have hx := (h.dirAt_dir hp).1
    apply fileContents_congr _ _ _ htx
    · exact Nat.le_trans (h.entries x j hx hl).upper (Nat.le_of_lt h.high)
    · intro s hs
      exact hput.contents x j hx hl hne htx s hs

private theorem Sound.patchEntry_contents (h : Sound m dirs depth) (hd : dirs d)
    (hl : Live m.disk d i) (ht : (entryAt (m.disk d) i).type = clawfsFile) {target next : Nat}
    {data : Bytes} (hc : Target m d i target next (sectorsFor data.length)) :
    fileLength (patchEntry m d i target next data).disk ⟨clawfsFile, target, data.length⟩ =
        data.length ∧
      fileContents (patchEntry m d i target next data).disk ⟨clawfsFile, target, data.length⟩ =
        data := by
  have hup := hc.upper
  have hhigh := hc.high
  apply fileContents_stored _ _ _ (by omega)
  intro j hj
  have hne : target + j ≠ d := by
    rcases hc.inside (target + j) (by omega) (by omega) with hfresh | hown
    · have := (h.dir_bounds hd).2
      omega
    · exact h.owned_ne_dir hd hl ht hown hd
  simp only [patchEntry]
  rw [writeDisk_of_ne _ _ _ _ hne, writeRange_apply _ _ _ _ _ (by omega), if_pos (by omega),
    Nat.add_sub_cancel_left]

/-- In every state of every run, contents that `clawfs_write_file` stored under a path through
directories are what `clawfs_read_file` returns, and nothing else is disturbed. -/
theorem write_read_round_trip {total : Nat} (h : Reachable m total) (path : CString)
    (data : Bytes) (hlen : data.length ≤ clawfsMaxFileSize)
    (hpath : ∀ parentPath fileName, splitFilePath path.val = some (parentPath, fileName) →
      ThroughDirs m.disk clawfsRootSector (pathTokens parentPath))
    (ht : total + allocatedBy m (clawfsWriteFile path.val data m).2 < 2 ^ 32)
    (hw : (clawfsWriteFile path.val data m).1 = true) :
    (∀ capacity, data.length ≤ capacity →
      (clawfsReadFile path.val capacity (clawfsWriteFile path.val data m).2).1 =
        ⟨true, some data.length, data⟩) ∧
    ∃ parentPath fileName i, splitFilePath path.val = some (parentPath, fileName) ∧
      findSlot ((clawfsWriteFile path.val data m).2.disk (lookupPath m.disk parentPath)) fileName =
        some i ∧
      Undisturbed m.disk (clawfsWriteFile path.val data m).2.disk
        (lookupPath m.disk parentPath) i := by
  obtain ⟨hn, dirs, depth, hs, -⟩ := h.sound (by omega)
  cases hsplit : splitFilePath path.val with
  | none =>
    rw [clawfsWriteFile_mounted m hs.mounted, if_neg (Nat.not_lt.mpr hlen), hsplit] at hw
    cases hw
  | some parts =>
    obtain ⟨parentPath, fileName⟩ := parts
    obtain ⟨-, hshort, hsub⟩ := splitFilePath_name hsplit
    have h0 : (0 : UInt8) ∉ fileName := fun hc => path.property (hsub 0 hc)
    have hthrough := hpath parentPath fileName hsplit
    have hp : DirPath m.disk parentPath := ⟨splitFilePath_parent hsplit, hthrough⟩
    have hz : lookupPath m.disk parentPath ≠ 0 := by
      intro hz
      rw [clawfsWriteFile_mounted m hs.mounted, if_neg (Nat.not_lt.mpr hlen), hsplit] at hw
      simp only [if_pos hz] at hw
      cases hw
    obtain ⟨hd, -⟩ := hs.lookupPath_dir hp hz
    have hst := hs.writeFile_stored path hlen hsplit hp hz (by rw [hn]; exact ht)
    generalize clawfsWriteFile path.val data m = result at *
    cases hst with
    | refused | created i entry => cases hw
    | @stored mid i target next found sound room file entry =>
      obtain ⟨depthMid, hmid⟩ := sound
      obtain ⟨hi, hpi⟩ := firstSlot_some found
      rw [Bool.and_eq_true] at hpi
      have hlive : Live mid.disk (lookupPath m.disk parentPath) i := ⟨hi, hpi.1⟩
      have hup := room.upper
      have hhigh := room.high
      have hmax : clawfsMaxFileSize < 2 ^ 32 := by decide
      have hentry : entryAt ((patchEntry mid (lookupPath m.disk parentPath) i target next
          data).disk (lookupPath m.disk parentPath)) i = ⟨clawfsFile, target, data.length⟩ := by
        simp only [patchEntry, writeDisk_same]
        rw [entryAt_patchSlot _ _ _ _ hi (by omega) (by omega), file]
      have hsound := hs.put_file entry (by rw [hentry])
      have hslot := hmid.findSlot_patchEntry hd h0 hshort found file room
      have hcontents := hmid.patchEntry_contents hd hlive file room
      have hsame : lookupPath (patchEntry mid (lookupPath m.disk parentPath) i target next
          data).disk parentPath = lookupPath m.disk parentPath := by
        exact hs.lookupTokens_eq entry.edit.others hthrough rfl hz
      refine ⟨?_, parentPath, fileName, i, rfl, hslot, entry.undisturbed hs (by rw [hentry])⟩
      intro capacity hcap
      have hfile : fileEntry (patchEntry mid (lookupPath m.disk parentPath) i target next
          data).disk path.val = some ⟨clawfsFile, target, data.length⟩ := by
        simp only [fileEntry, hsplit, Option.bind_some, hsame, if_neg hz,
          hsound.findEntry_eq hd, hslot, Option.map_some, hentry, if_true]
      simp only [clawfsReadFile_mounted _ hsound.mounted, hfile, hcontents.1, hcontents.2,
        if_neg (Nat.not_lt.mpr hlen), if_neg (Nat.not_lt.mpr hcap)]

/-- Two bytes written to `/proc/cpuinfo` on a fresh disk are read back. -/
theorem write_read_round_trip_cpuinfo :
    (clawfsWriteFile cpuinfoPath.val [7, 0] (clawfsFormat blank).2).1 = true ∧
      (clawfsReadFile cpuinfoPath.val 2
        (clawfsWriteFile cpuinfoPath.val [7, 0] (clawfsFormat blank).2).2).1 =
          ⟨true, some 2, [7, 0]⟩ := by
  obtain ⟨hw, hv, ht, -⟩ := cpuinfo_written
  exact ⟨hw, (write_read_round_trip (.format blank rfl) cpuinfoPath [7, 0] (by decide)
    (fun parentPath fileName hs => (hv parentPath fileName hs).2) ht hw).1 2 (by decide)⟩

/-- A path below the regular file `/proc/cpuinfo`. -/
def belowCpuinfo : CString := cstring (cpuinfoPath.val ++ ascii ['/', 'x'])

/-- A write below the regular file `/proc/cpuinfo` succeeds and changes what that file holds. -/
theorem write_below_file_disturbs :
    ∃ m total path data other, Reachable m total ∧
      total + allocatedBy m (clawfsWriteFile path data m).2 < 2 ^ 32 ∧
      data.length ≤ clawfsMaxFileSize ∧ (clawfsWriteFile path data m).1 = true ∧ other ≠ path ∧
      (clawfsReadFile other 512 m).1 = ⟨true, some 0, []⟩ ∧
      (clawfsReadFile other 512 (clawfsWriteFile path data m).2).1 = ⟨true, some 1, [120]⟩ := by
  refine ⟨(clawfsFormat blank).2, (clawfsFormat blank).2.nextFreeSector, belowCpuinfo.val, [65],
    cpuinfoPath.val, .format blank rfl, ?_⟩
  decide +kernel

end NasuaOS.ClawFS
