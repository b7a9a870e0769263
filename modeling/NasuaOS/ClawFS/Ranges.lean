import NasuaOS.ClawFS.Runs

/-!
# Sizes and ranges

`clawfs_get_file_size` and `clawfs_read_file_range` go through sectors of their own, from a byte in
the middle of one on. They agree with the whole file that `clawfs_read_file` returns.
`clawfs.cpp:664–777`.
-/

namespace NasuaOS.ClawFS

open Base Libc List

variable {m : Machine} {path : Bytes} {e : CLAWFSEntry}

/-- The `count` bytes from `offset` on in the sectors of a file. -/
def window (disk : Disk) (sector offset count : Nat) : Bytes :=
  (range count).map fun k =>
    (disk ((sector + (offset + k) / 512) % 2 ^ 32)).byte ((offset + k) % 512)

private theorem length_window (disk : Disk) (sector offset count : Nat) :
    (window disk sector offset count).length = count := by
  rw [window, length_map, length_range]

private theorem window_add (disk : Disk) (sector offset c : Nat) {n : Nat}
    (hn : n ≤ 512 - (offset + c) % 512) :
    window disk sector offset (c + n) = window disk sector offset c ++ (range n).map fun k =>
        (disk ((sector + (offset + c) / 512) % 2 ^ 32)).byte ((offset + c) % 512 + k) := by
  rw [window, range_add, map_append, map_map, ← window]
  congr 1
  apply map_congr_left
  intro k hk
  rw [mem_range] at hk
  have hdiv : (offset + (c + k)) / 512 = (offset + c) / 512 := by omega
  have hmod : (offset + (c + k)) % 512 = (offset + c) % 512 + k := by omega
  rw [Function.comp_apply, hdiv, hmod]

private theorem rangeChunks_faultless (h : m.faults = noFaults) (sector offset length : Nat)
    (rounds : Nat) {c : Nat} (hc : c ≤ length) (hrounds : length - c ≤ rounds) :
    rangeChunks sector offset length rounds (window m.disk sector offset c) m =
      ((true, window m.disk sector offset length), m) := by
  induction rounds generalizing c with
  | zero =>
    rw [show c = length by omega]
    rfl
  | succ rounds ih =>
    rw [rangeChunks, length_window]
    split
    · rw [show c = length by omega]
      rfl
    · next hmore =>
      have hround := ih (c := c + min (512 - (offset + c) % 512) (length - c)) (by omega)
        (by omega)
      simp only [bind_apply, readSector_faultless m h]
      rw [← window_add _ _ _ _ (Nat.min_le_left _ _)]
      exact hround

private theorem fileContents_window (disk : Disk) (hne : e.entryCount ≠ 0)
    {offset length : Nat} (hin : offset + length ≤ e.entryCount) :
    ((fileContents disk e).drop offset).take length = window disk e.dataSector offset length := by
  have hlength : fileLength disk e = e.entryCount := if_neg hne
  rw [fileContents_eq_map, hlength]
  apply ext_getElem
  · simp only [length_take, length_drop, length_map, length_range,
      length_window]
    omega
  · intro k _ hk
    simp only [getElem_take, getElem_drop, getElem_map, getElem_range, window]

private theorem clawfsGetFileSize_mounted (h : Mounted m) (path : Bytes) : clawfsGetFileSize path m =
      ((fileEntry m.disk path).bind fun e =>
        if e.entryCount = 0 ∨ clawfsMaxFileSize < e.entryCount then none
        else some e.entryCount, m) := by
  simp only [clawfsGetFileSize, bind_apply, getFileEntry_mounted m h]
  cases fileEntry m.disk path with
  | none | some e => rfl

private theorem clawfsReadFileRange_mounted (h : Mounted m) (path : Bytes) (offset length : Nat) :
    clawfsReadFileRange path offset length m = ((fileEntry m.disk path).bind fun e =>
        if e.entryCount = 0 ∨ clawfsMaxFileSize < e.entryCount ∨
          e.entryCount < offset + length then none
        else some (((fileContents m.disk e).drop offset).take length), m) := by
  simp only [clawfsReadFileRange, bind_apply, getFileEntry_mounted m h]
  cases fileEntry m.disk path with
  | none => rfl
  | some e =>
    have houtside : (e.entryCount < offset ∨ e.entryCount - offset < length) ↔
        e.entryCount < offset + length := by omega
    simp only [houtside, Option.bind_some]
    split
    · rfl
    · next hin =>
      have hchunks := rangeChunks_faultless h.faultless e.dataSector offset length length
        (Nat.zero_le _) (Nat.sub_le _ _)
      rw [fileContents_window m.disk (by omega) (by omega)]
      change rangeChunks _ _ _ _ [] m = _ at hchunks
      rw [bind_apply, hchunks]
      rfl

/-- For a file with a recorded length, the size is the length of the whole file, and a range is the
bytes of the whole file in it, or nothing when it does not lie inside. A length over the limit
makes all three fail. -/
theorem size_and_ranges_agree (h : Mounted m) (he : fileEntry m.disk path = some e)
    (hne : e.entryCount ≠ 0) :
    (e.entryCount ≤ clawfsMaxFileSize → ∃ bytes, (∀ capacity, bytes.length ≤ capacity →
        (clawfsReadFile path capacity m).1 = ⟨true, some bytes.length, bytes⟩) ∧
      (clawfsGetFileSize path m).1 = some bytes.length ∧
      ∀ offset length, (clawfsReadFileRange path offset length m).1 =
        if offset + length ≤ bytes.length then some ((bytes.drop offset).take length)
        else none) ∧
    (clawfsMaxFileSize < e.entryCount →
      (∀ capacity, (clawfsReadFile path capacity m).1.ok = false) ∧
      (clawfsGetFileSize path m).1 = none ∧
      ∀ offset length, (clawfsReadFileRange path offset length m).1 = none) := by
  have hlength : fileLength m.disk e = e.entryCount := if_neg hne
  have hbytes : (fileContents m.disk e).length = e.entryCount := by
    rw [fileContents_eq_map, hlength, length_map, length_range]
  simp only [clawfsReadFile_mounted m h, clawfsGetFileSize_mounted h,
    clawfsReadFileRange_mounted h, he, Option.bind_some, hne, false_or]
  constructor
  · intro hmax
    refine ⟨fileContents m.disk e, ?_, ?_, ?_⟩
    · intro capacity hcap
      rw [if_neg (Nat.not_lt.mpr hmax), if_neg (by omega), hlength, hbytes]
    · rw [if_neg (Nat.not_lt.mpr hmax), hbytes]
    · intro offset length
      rw [hbytes]
      split
      · next hout => rw [if_neg (by omega)]
      · next hin => rw [if_pos (by omega)]
  · intro hmax
    simp only [hmax, true_or, if_true, implies_true, and_self]

/-- The machine after two bytes went to `/proc/cpuinfo` on a fresh disk. -/
def twoBytes : Machine := (clawfsWriteFile cpuinfoPath.val [7, 0] (clawfsFormat blank).2).2

private theorem mounted_twoBytes : Mounted twoBytes := by
  have hreach : Reachable twoBytes _ := .step (.writeFile cpuinfoPath [7, 0]) (.format blank rfl)
    cpuinfo_written.2.1 trivial
  obtain ⟨-, dirs, depth, hsound, -⟩ := hreach.sound (by
    rw [Op.run]
    exact cpuinfo_written.2.2.1)
  exact hsound.mounted

/-- Size and ranges of the two bytes. -/
theorem size_and_ranges_agree_cpuinfo :
    fileEntry twoBytes.disk cpuinfoPath.val = some ⟨clawfsFile, 127, 2⟩ ∧
      ∃ bytes : Bytes, (clawfsGetFileSize cpuinfoPath.val twoBytes).1 = some bytes.length ∧
        (clawfsReadFileRange cpuinfoPath.val 1 1 twoBytes).1 =
          if 1 + 1 ≤ bytes.length then some ((bytes.drop 1).take 1) else none := by
  have he : fileEntry twoBytes.disk cpuinfoPath.val = some ⟨clawfsFile, 127, 2⟩ := by
    rw [twoBytes]
    exact cpuinfo_written.2.2.2
  obtain ⟨bytes, -, hsize, hrange⟩ :=
    (size_and_ranges_agree mounted_twoBytes he (by decide)).1 (by decide)
  exact ⟨he, bytes, hsize, hrange 1 1⟩

end NasuaOS.ClawFS
