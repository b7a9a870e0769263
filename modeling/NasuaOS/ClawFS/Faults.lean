import NasuaOS.ClawFS.RoundTrip

/-!
# Failing writes

`src/kernel_64bit/src/system/filesystem/clawfs/clawfs.cpp:779–870`. What `clawfs_write_file` leaves
when its reads succeed and some of its writes fail. It stops at the first write that fails, so the
first sectors of the new contents are on the disk, over the old ones or in fresh sectors, and the
directory is as before.
-/

namespace NasuaOS.ClawFS

open Base Libc List

variable {m : Machine} {dirs : Nat → Prop} {depth : Nat → Nat} {d i : Nat}

/-- The outcomes of the requests behind the first `n`. -/
def later (faults : Nat → Bool) (n : Nat) : Nat → Bool := fun k => faults (n + k)

/-- The first `n` requests succeed. -/
def Succeed (faults : Nat → Bool) (n : Nat) : Prop := ∀ k, k < n → faults k = false

/-- A machine whose coming requests have other outcomes. -/
def Machine.meeting (m : Machine) (faults : Nat → Bool) : Machine := { m with faults := faults }

section

variable {faults : Nat → Bool} {n k : Nat}

@[simp] private theorem later_zero : later faults 0 = faults := by
  funext j
  rw [later, Nat.zero_add]

private theorem shift_eq_later : (fun n => faults (n + 1)) = later faults 1 := by
  funext j
  rw [later, Nat.add_comm]

/-- Behind `n`, and behind `k` more. -/
@[simp] theorem later_later : later (later faults n) k = later faults (n + k) := by
  funext j
  rw [later, later, later, Nat.add_assoc]

/-- The first of them. -/
theorem Succeed.left (h : Succeed faults (n + k)) : Succeed faults n :=
  fun j hj => h j (Nat.lt_add_right k hj)

/-- The others. -/
theorem Succeed.right (h : Succeed faults (n + k)) : Succeed (later faults n) k :=
  fun _ hj => h _ (Nat.add_lt_add_left hj n)

end

private theorem writeSector_meets (m : Machine) (faults : Nat → Bool) (lba : Nat) (buffer : Sector) :
    writeSector lba buffer (m.meeting faults) = (!faults 0, Machine.meeting
        { m with disk := if faults 0 then m.disk else writeDisk m.disk lba buffer }
        (later faults 1)) := by
  simp only [writeSector, Machine.meeting, shift_eq_later]
  rfl

/-- Code that makes `n` reads, changes nothing, and returns `a` when they succeed. -/
def Reads {α : Type} (x : ClawM α) (m : Machine) (n : Nat) (a : α) : Prop :=
  ∀ faults, Succeed faults n → x (m.meeting faults) = (a, m.meeting (later faults n))

namespace Reads

variable {α β : Type} {x : ClawM α} {f : α → ClawM β} {n k : Nat} {a : α} {b : β}

/-- Returning reads nothing. -/
theorem pure (a : α) : Reads (Pure.pure a) m 0 a := by
  intro faults _
  rw [later_zero]
  rfl

/-- What follows starts behind the reads. -/
theorem bind_apply (hx : Reads x m n a) {faults : Nat → Bool} (h : Succeed faults n) :
    (x >>= f) (m.meeting faults) = f a (m.meeting (later faults n)) := by
  rw [Base.bind_apply, hx faults h]

/-- One after the other. -/
theorem bind (hx : Reads x m n a) (hf : Reads (f a) m k b) : Reads (x >>= f) m (n + k) b := by
  intro faults h
  rw [hx.bind_apply h.left, hf _ h.right, later_later]

private theorem readSector (lba : Nat) : Reads (readSector lba) m 1 (some (m.disk lba)) := by
  intro faults h
  simp only [ClawFS.readSector, Machine.meeting, shift_eq_later, h 0 Nat.one_pos]
  rfl

end Reads

/-- The check of the header reads one sector. -/
theorem clawfsExists_reads (h : Mounted m) : Reads clawfsExists m 1 true := by
  rw [clawfsExists]
  refine (Reads.readSector clawfsStartLba).bind (k := 0) ?_
  intro faults _
  simp [h.header, Machine.meeting, h.initialized]

/-- A lookup reads the directory. -/
theorem findEntryInDir_reads (dir : Nat) (name : Bytes) :
    Reads (findEntryInDir dir name) m 1 (findEntry (m.disk dir) name) := by
  rw [findEntryInDir]
  exact (Reads.readSector dir).bind (k := 0) (Reads.pure _)

private theorem walkTokens_reads {dir : Nat} {tokens : List Bytes}
    (h : lookupTokens m.disk dir tokens ≠ 0) :
    Reads (walkTokens dir tokens) m tokens.length (lookupTokens m.disk dir tokens) := by
  induction tokens generalizing dir with
  | nil => exact Reads.pure dir
  | cons token rest ih =>
    rw [walkTokens, lookupTokens, length_cons, Nat.add_comm]
    rw [lookupTokens] at h
    refine (findEntryInDir_reads dir token).bind ?_
    cases hfound : findEntry (m.disk dir) token with
    | none => exact absurd (by rw [hfound]) h
    | some e =>
      simp only [hfound] at h
      exact ih h

/-- So does `get_sector_by_path`, and the header before. -/
theorem getSectorByPath_reads (h : Mounted m) {path : Bytes} (hz : lookupPath m.disk path ≠ 0) :
    Reads (getSectorByPath path) m (1 + (pathTokens path).length) (lookupPath m.disk path) := by
  rw [getSectorByPath]
  refine (clawfsExists_reads h).bind ?_
  by_cases hp : path = [slash]
  · subst hp
    exact Reads.pure clawfsRootSector
  · rw [if_neg (by decide), if_neg hp]
    exact walkTokens_reads hz

/-- The reads of `clawfs_write_file` before it writes, for a file that is there. -/
def readsBefore (parentPath : Bytes) : Nat := 1 + (pathTokens parentPath).length + 1 + 1

/-- `clawfs_write_file` for a file that is there, when its reads succeed. -/
theorem clawfsWriteFile_reads (h : Mounted m) {path data parentPath fileName : Bytes}
    (hlen : data.length ≤ clawfsMaxFileSize)
    (hsplit : splitFilePath path = some (parentPath, fileName))
    (hz : lookupPath m.disk parentPath ≠ 0) {e : CLAWFSEntry}
    (hfound : findEntry (m.disk (lookupPath m.disk parentPath)) fileName = some e)
    {faults : Nat → Bool} (hf : Succeed faults (readsBefore parentPath)) :
    clawfsWriteFile path data (m.meeting faults) =
      storeContents (lookupPath m.disk parentPath) (m.disk (lookupPath m.disk parentPath)) fileName
        e data (m.meeting (later faults (readsBefore parentPath))) := by
  rw [readsBefore] at hf ⊢
  rw [clawfsWriteFile, if_neg (Nat.not_lt.mpr hlen), hsplit]
  change (getSectorByPath parentPath >>= _) _ = _
  rw [(getSectorByPath_reads h hz).bind_apply hf.left.left, if_neg hz,
    (Reads.readSector _).bind_apply hf.left.right, later_later]
  change (findEntryInDir _ fileName >>= _) _ = _
  rw [(findEntryInDir_reads _ _).bind_apply hf.right, hfound, later_later]

/-- Writes that succeed before one fails, of `count` in a row. -/
def written : (Nat → Bool) → Nat → Nat
  | _, 0 => 0
  | faults, count + 1 => if faults 0 then 0 else written (later faults 1) count + 1

/-- Not more than there are. -/
theorem written_le (faults : Nat → Bool) (count : Nat) : written faults count ≤ count := by
  induction count generalizing faults with
  | zero => exact Nat.le_refl 0
  | succ count ih =>
    rw [written]
    split
    · exact Nat.zero_le _
    · exact Nat.succ_le_succ (ih _)

/-- The write behind `n` requests fails, and no other. -/
def failingAt (n : Nat) : Nat → Bool := fun k => k == n

private theorem written_failingAt (count n : Nat) : written (failingAt n) count = min n count := by
  induction count generalizing n with
  | zero => rw [written, Nat.min_zero]
  | succ count ih =>
    rw [written]
    cases n with
    | zero => rfl
    | succ n =>
      have hlater : later (failingAt (n + 1)) 1 = failingAt n := by
        funext k
        simp [later, failingAt, Nat.add_comm 1 k]
      rw [if_neg (by simp [failingAt]), hlater, ih]
      omega

private theorem writeChunks_meets (m : Machine) (faults : Nat → Bool) (target : Nat)
    (data : Bytes) (count k : Nat) : ∃ after,
      writeChunks target data count k (m.meeting faults) =
        (decide (written faults count = count), Machine.meeting
          { m with disk := writeRange target data (written faults count) k m.disk } after) ∧
      (written faults count = count → after = later faults count) := by
  induction count generalizing k m faults with
  | zero => exact ⟨faults, rfl, fun _ => later_zero.symm⟩
  | succ count ih =>
    rw [writeChunks, written, bind_apply, writeSector_meets]
    cases faults 0 with
    | true =>
      refine ⟨later faults 1, ?_, fun h => absurd h (Nat.succ_ne_zero count).symm⟩
      rfl
    | false =>
      obtain ⟨after, hrest, hlater⟩ := ih
        { m with disk := writeDisk m.disk ((target + k) % 2 ^ 32) (chunkAt data k) }
        (later faults 1) (k + 1)
      refine ⟨after, ?_, ?_⟩
      · simp only [Bool.not_false, Bool.true_eq_false, Bool.false_eq_true, if_false, hrest,
          Nat.add_right_cancel_iff]
        rfl
      · intro h
        rw [hlater (Nat.add_right_cancel h), later_later, Nat.add_comm]

/-- The state in which the first `count` sectors of the new contents are written. -/
def partly (m : Machine) (target next : Nat) (data : Bytes) (count : Nat) : Machine :=
  { m with disk := writeRange target data count 0 m.disk, nextFreeSector := next }

/-- The sectors of that state. -/
theorem partly_disk (m : Machine) (target next : Nat) (data : Bytes) (count : Nat) :
    (partly m target next data count).disk = writeRange target data count 0 m.disk := rfl

/-- What a store for the file in slot `i` of directory `d` leaves: nothing new when it is refused,
the first sectors of the contents when one of its writes fails, and otherwise the grown entry. -/
inductive Stores (m : Machine) (d i : Nat) (data : Bytes) (faults : Nat → Bool) :
    Bool × Machine → Prop
  | refused (after : Nat → Bool) (reason : (entryAt (m.disk d) i).type ≠ clawfsFile ∨
      clawfsMaxFileSize < (entryAt (m.disk d) i).entryCount ∨
      targetFor m.nextFreeSector (entryAt (m.disk d) i) (sectorsFor data.length) = none) :
      Stores m d i data faults (false, m.meeting after)
  | stopped (after : Nat → Bool) {target next : Nat} (type : (entryAt (m.disk d) i).type = clawfsFile)
      (chosen : targetFor m.nextFreeSector (entryAt (m.disk d) i) (sectorsFor data.length) =
        some (target, next)) :
      Stores m d i data faults
        (false, (partly m target next data (written faults (sectorsFor data.length))).meeting after)
  | stored (after : Nat → Bool) {target next : Nat} (type : (entryAt (m.disk d) i).type = clawfsFile)
      (chosen : targetFor m.nextFreeSector (entryAt (m.disk d) i) (sectorsFor data.length) =
        some (target, next))
      (all : written faults (sectorsFor data.length) = sectorsFor data.length)
      (last : faults (sectorsFor data.length) = false) :
      Stores m d i data faults (true, (patchEntry m d i target next data).meeting after)

/-- A store whose name leads to the slot, when some of its writes fail. -/
theorem storeContents_meets (hinitialized : m.allocatorInitialized = true) (data : Bytes)
    {name : Bytes}
    (hslot : (entryAt (m.disk d) i).type = clawfsFile → fileSlot (m.disk d) name = some i)
    (faults : Nat → Bool) : Stores m d i data faults
      (storeContents d (m.disk d) name (entryAt (m.disk d) i) data (m.meeting faults)) := by
  rw [storeContents]
  by_cases htype : (entryAt (m.disk d) i).type = clawfsFile
  case neg =>
    rw [if_pos htype]
    exact .refused _ (.inl htype)
  by_cases hsize : clawfsMaxFileSize < (entryAt (m.disk d) i).entryCount
  · rw [if_neg (not_not.mpr htype), if_pos hsize]
    exact .refused _ (.inr (.inl hsize))
  have hnext : (m.meeting faults).nextFreeSector = m.nextFreeSector := rfl
  rw [if_neg (not_not.mpr htype), if_neg hsize, bind_apply,
    chooseTarget_initialized (m.meeting faults) hinitialized, hnext]
  cases htarget : targetFor m.nextFreeSector (entryAt (m.disk d) i) (sectorsFor data.length) with
  | none => exact .refused _ (.inr (.inr htarget))
  | some chosen =>
    obtain ⟨target, next⟩ := chosen
    obtain ⟨after, hwritten, hlater⟩ := writeChunks_meets { m with nextFreeSector := next } faults
      target data (sectorsFor data.length) 0
    change Stores m d i data faults ((writeChunks target data (sectorsFor data.length) 0 >>= _)
      (Machine.meeting { m with nextFreeSector := next } faults))
    rw [bind_apply, hwritten, hslot htype]
    by_cases hall : written faults (sectorsFor data.length) = sectorsFor data.length
    · rw [decide_eq_true hall, if_neg (by simp)]
      change Stores m d i data faults (writeSector d (patchSlot (m.disk d) i target data.length)
        ((partly m target next data (written faults (sectorsFor data.length))).meeting after))
      have hafter : after 0 = faults (sectorsFor data.length) := by
        rw [hlater hall]
        exact congrArg faults (Nat.add_zero _)
      rw [writeSector_meets, hafter]
      cases hlast : faults (sectorsFor data.length) with
      | true => exact .stopped (later after 1) htype htarget
      | false =>
        rw [hall]
        exact .stored (later after 1) htype htarget hall hlast
    · rw [decide_eq_false hall, if_pos rfl]
      exact .stopped after htype htarget

/-- Old contents with the first `count` sectors of new ones over them. -/
def overwritten (old new : Bytes) (count : Nat) : Bytes :=
  (range old.length).map fun j => if j < 512 * count then new.getD j 0 else old.getD j 0

section Partly

variable {target next count : Nat} {data : Bytes}

private theorem Target.partly_keeps (h : Target m d i target next (sectorsFor data.length))
    (hcount : count ≤ sectorsFor data.length) {s : Nat} (hs : s < m.nextFreeSector)
    (ho : s ∉ owned (entryAt (m.disk d) i)) : (partly m target next data count).disk s =
      m.disk s := by
  have hup := h.upper
  have hhigh := h.high
  rw [partly_disk, writeRange_apply _ _ _ _ _ (by omega), if_neg]
  intro hr
  rcases h.inside s (by omega) (by omega) with hn | hn
  · omega
  · exact ho hn

section

variable (h : Sound m dirs depth)

include h

private theorem Sound.partly_dir (hd : dirs d) (hl : Live m.disk d i)
    (ht : (entryAt (m.disk d) i).type = clawfsFile)
    (hc : Target m d i target next (sectorsFor data.length))
    (hcount : count ≤ sectorsFor data.length) {x : Nat} (hx : dirs x) :
    (partly m target next data count).disk x = m.disk x := by
  apply hc.partly_keeps hcount (h.dir_bounds hx).2
  rw [owned, Finset.mem_Ico]
  rintro ⟨hlow, hhigh⟩
  exact h.file_sector_not_dir hd hl ht x hlow hhigh hx

private theorem Sound.partly_header (hd : dirs d) (hl : Live m.disk d i)
    (hc : Target m d i target next (sectorsFor data.length))
    (hcount : count ≤ sectorsFor data.length) :
    (partly m target next data count).disk clawfsStartLba = m.disk clawfsStartLba := by
  apply hc.partly_keeps hcount
  · exact Nat.lt_of_lt_of_le (by decide) h.low
  · have hlow := (h.entries d i hd hl).lower
    rw [owned, Finset.mem_Ico]
    rintro ⟨hle, -⟩
    exact absurd (Nat.le_trans hlow hle) (by decide)

private theorem Sound.partly_contents (hd : dirs d) (hl : Live m.disk d i)
    (ht : (entryAt (m.disk d) i).type = clawfsFile) (hne : (entryAt (m.disk d) i).entryCount ≠ 0)
    (htarget : targetFor m.nextFreeSector (entryAt (m.disk d) i) (sectorsFor data.length) =
      some (target, next)) (hcount : count ≤ sectorsFor data.length) :
    fileContents (partly m target next data count).disk (entryAt (m.disk d) i) =
      if sectorsFor (entryAt (m.disk d) i).entryCount < sectorsFor data.length then
        fileContents m.disk (entryAt (m.disk d) i)
      else overwritten (fileContents m.disk (entryAt (m.disk d) i)) data count := by
  have hok := h.entries d i hd hl
  have hupper := hok.upper
  have hhigh := h.high
  have hc := h.target hd hl ht htarget
  generalize entryAt (m.disk d) i = e at *
  rw [ownedCount_file ht] at hupper
  have hlen (disk : Disk) : fileLength disk e = e.entryCount := if_neg hne
  have hsectors : ∀ j, j < e.entryCount → j / 512 < sectorsFor e.entryCount := by
    intro j hj
    rw [sectorsFor, if_neg hne]
    omega
  rw [targetFor] at htarget
  split
  · next hmore =>
    rw [if_neg (Nat.not_le.mpr hmore)] at htarget
    split at htarget
    · cases htarget
    · cases htarget
      rw [fileContents_eq_map, fileContents_eq_map, hlen, hlen]
      apply map_congr_left
      intro j hj
      have hj := hsectors j (mem_range.mp hj)
      rw [Nat.mod_eq_of_lt (by omega), partly_disk, writeRange_apply _ _ _ _ _ (by omega),
        if_neg (by omega)]
  · next hfits =>
    rw [if_pos (Nat.not_lt.mp hfits)] at htarget
    cases htarget
    have hlength : (fileContents m.disk e).length = e.entryCount := by
      rw [fileContents_eq_map, hlen, length_map, length_range]
    rw [overwritten, hlength, fileContents_eq_map, hlen]
    apply map_congr_left
    intro j hj
    have hlt := mem_range.mp hj
    have hj := hsectors j hlt
    have hsector : (e.dataSector + j / 512) % 2 ^ 32 = e.dataSector + j / 512 :=
      Nat.mod_eq_of_lt (by omega)
    rw [hsector, partly_disk, writeRange_apply _ _ _ _ _ (by omega)]
    by_cases hnew : j < 512 * count
    · rw [if_pos (by omega), if_pos hnew, chunkAt, Buffer.byte_ofFn _ _ (Nat.mod_lt _ (by decide))]
      congr 1
      omega
    · rw [if_neg (by omega), if_neg hnew, fileContents_eq_map, hlen]
      rw [getD_eq_getElem?_getD, getElem?_map, getElem?_range hlt, Option.map_some,
        Option.getD_some, hsector]

/-- The entry of a file below directories that keep their contents. -/
theorem Sound.fileEntry_congr {disk : Disk} (hsame : ∀ x, dirs x → disk x = m.disk x)
    {path parentPath fileName : Bytes}
    (hsplit : splitFilePath path = some (parentPath, fileName)) (hp : DirPath m.disk parentPath) :
    fileEntry disk path = fileEntry m.disk path := by
  have hlookup : lookupPath disk parentPath = lookupPath m.disk parentPath :=
    h.lookupTokens_congr (fun x hx _ => hsame x hx) _ h.root hp.2 le_rfl
  simp only [fileEntry, hsplit, Option.bind_some, hlookup]
  by_cases hz : lookupPath m.disk parentPath = 0
  · rw [if_pos hz, if_pos hz]
  · rw [hsame _ (h.lookupPath_dir hp hz).1]

end

end Partly

/-- Nothing is overwritten. -/
theorem overwritten_zero (old new : Bytes) : overwritten old new 0 = old := by
  apply ext_getElem
  · simp [overwritten]
  · intro j hj hold
    simp [overwritten, hold]

/-- In a sound state, a regular file with a recorded length is at a path below directories: in slot
`i` of the directory in sector `d`. -/
structure FileAt (m : Machine) (dirs : Nat → Prop) (depth : Nat → Nat) (path : CString) (d i : Nat) :
    Prop where
  sound : Sound m dirs depth
  parent : ∃ parentPath fileName, splitFilePath path.val = some (parentPath, fileName) ∧
    DirPath m.disk parentPath ∧ lookupPath m.disk parentPath = d ∧
    findSlot (m.disk d) fileName = some i
  dir : dirs d
  type : (entryAt (m.disk d) i).type = clawfsFile
  size : (entryAt (m.disk d) i).entryCount ≠ 0

/-- The reads of `clawfs_write_file` before its first write. -/
def readsOf (path : Bytes) : Nat := (splitFilePath path).elim 0 fun parts => readsBefore parts.1

namespace FileAt

variable {path : CString} {data : Bytes} {faults : Nat → Bool}

section

variable (h : FileAt m dirs depth path d i)

include h

private theorem live : Live m.disk d i := by
  obtain ⟨parentPath, fileName, -, -, -, hslot⟩ := h.parent
  obtain ⟨hi, hp⟩ := firstSlot_some hslot
  rw [Bool.and_eq_true] at hp
  exact ⟨hi, hp.1⟩

private theorem fileEntry : fileEntry m.disk path.val = some (entryAt (m.disk d) i) := by
  obtain ⟨parentPath, fileName, hsplit, -, hlookup, hslot⟩ := h.parent
  have hz : d ≠ 0 := by
    have hlow := (h.sound.dir_bounds h.dir).1
    rintro rfl
    exact absurd hlow (by decide)
  simp only [ClawFS.fileEntry, hsplit, Option.bind_some, hlookup, if_neg hz,
    h.sound.findEntry_eq h.dir, hslot, Option.map_some, h.type, if_true]

private theorem writeFile_eq (hlen : data.length ≤ clawfsMaxFileSize)
    (hreads : Succeed faults (readsOf path.val)) :
    ∃ fileName, fileSlot (m.disk d) fileName = some i ∧
      clawfsWriteFile path.val data (m.meeting faults) =
        storeContents d (m.disk d) fileName (entryAt (m.disk d) i) data
          (m.meeting (later faults (readsOf path.val))) := by
  obtain ⟨parentPath, fileName, hsplit, hp, rfl, hslot⟩ := h.parent
  obtain ⟨hne, -, hsub⟩ := splitFilePath_name hsplit
  have h0 : (0 : UInt8) ∉ fileName := fun hc => path.property (hsub 0 hc)
  have hz : lookupPath m.disk parentPath ≠ 0 := by
    have hlow := (h.sound.dir_bounds h.dir).1
    intro hz
    rw [hz] at hlow
    exact absurd hlow (by decide)
  have hof : readsOf path.val = readsBefore parentPath := by
    rw [readsOf, hsplit]
    rfl
  rw [hof] at hreads ⊢
  refine ⟨fileName, fileSlot_of_findSlot h0 hne hslot h.type, ?_⟩
  apply clawfsWriteFile_reads h.sound.mounted hlen hsplit hz _ hreads
  rw [h.sound.findEntry_eq h.dir, hslot]
  rfl

private theorem partly_readBack {target next count : Nat}
    (htarget : targetFor m.nextFreeSector (entryAt (m.disk d) i) (sectorsFor data.length) =
      some (target, next)) (hcount : count ≤ sectorsFor data.length) :
    Mounted ((partly m target next data count).meeting noFaults) ∧
      ClawFS.fileEntry (partly m target next data count).disk path.val =
        some (entryAt (m.disk d) i) := by
  have hc := h.sound.target h.dir h.live h.type htarget
  obtain ⟨parentPath, fileName, hsplit, hp, -, -⟩ := h.parent
  refine ⟨⟨?_, h.sound.mounted.initialized, rfl⟩, ?_⟩
  · change headerValid ((partly m target next data count).disk clawfsStartLba) = true
    rw [h.sound.partly_header h.dir h.live hc hcount]
    exact h.sound.mounted.header
  · rw [h.sound.fileEntry_congr (fun x hx => h.sound.partly_dir h.dir h.live h.type hc hcount hx)
      hsplit hp]
    exact h.fileEntry

end

variable {capacity : Nat}

private theorem readFile_eq {m' : Machine} (hm : Mounted m') {e : CLAWFSEntry}
    {contents : Bytes} (hentry : ClawFS.fileEntry m'.disk path.val = some e)
    (hsize : e.entryCount ≤ clawfsMaxFileSize) (hne : e.entryCount ≠ 0)
    (hcontents : fileContents m'.disk e = contents) (hcapacity : e.entryCount ≤ capacity) :
    (clawfsReadFile path.val capacity m').1 = ⟨true, some e.entryCount, contents⟩ := by
  have hlength : fileLength m'.disk e = e.entryCount := if_neg hne
  simp only [clawfsReadFile_mounted m' hm, hentry, hlength, hcontents,
    if_neg (Nat.not_lt.mpr hsize), if_neg (Nat.not_lt.mpr hcapacity)]

/-- When `clawfs_write_file` fails, the first sectors of the new contents may be over the old ones,
but only where the old ones have room for all of them. -/
theorem writeFile_fails (h : FileAt m dirs depth path d i) (hlen : data.length ≤ clawfsMaxFileSize)
    (hreads : Succeed faults (readsOf path.val))
    (hfalse : (clawfsWriteFile path.val data (m.meeting faults)).1 = false)
    (hcapacity : (entryAt (m.disk d) i).entryCount ≤ capacity) :
    ∃ count, count ≤ sectorsFor data.length ∧
      (sectorsFor (entryAt (m.disk d) i).entryCount < sectorsFor data.length → count = 0) ∧
      (clawfsReadFile path.val capacity
          ((clawfsWriteFile path.val data (m.meeting faults)).2.meeting noFaults)).1 =
        ⟨true, some (entryAt (m.disk d) i).entryCount,
          overwritten (fileContents m.disk (entryAt (m.disk d) i)) data count⟩ := by
  have hsize := (h.sound.entries d i h.dir h.live).size
  obtain ⟨fileName, hslot, hwrite⟩ := h.writeFile_eq hlen hreads
  rw [hwrite] at hfalse ⊢
  have hstores := storeContents_meets h.sound.mounted.initialized data (fun _ => hslot)
    (later faults (readsOf path.val))
  generalize storeContents d (m.disk d) fileName _ data _ = result at *
  cases hstores with
  | refused after _ =>
    refine ⟨0, Nat.zero_le _, fun _ => rfl, ?_⟩
    rw [overwritten_zero]
    have hmounted : Mounted ((m.meeting after).meeting noFaults) :=
      ⟨h.sound.mounted.header, h.sound.mounted.initialized, rfl⟩
    exact readFile_eq hmounted h.fileEntry hsize h.size rfl hcapacity
  | stopped after _ htarget =>
    have hcount := written_le (later faults (readsOf path.val)) (sectorsFor data.length)
    obtain ⟨hmounted, hentry⟩ := h.partly_readBack htarget hcount
    have hcontents := h.sound.partly_contents h.dir h.live h.type h.size htarget hcount
    by_cases hmore : sectorsFor (entryAt (m.disk d) i).entryCount < sectorsFor data.length
    · rw [if_pos hmore, ← overwritten_zero (fileContents m.disk _) data] at hcontents
      exact ⟨0, Nat.zero_le _, fun _ => rfl,
        readFile_eq hmounted hentry hsize h.size hcontents hcapacity⟩
    · rw [if_neg hmore] at hcontents
      exact ⟨_, hcount, fun hlt => absurd hlt hmore,
        readFile_eq hmounted hentry hsize h.size hcontents hcapacity⟩
  | stored => cases hfalse

/-- Where the old contents have room for the new ones, each number of sectors can be left. -/
theorem writeFile_stops (h : FileAt m dirs depth path d i) (hlen : data.length ≤ clawfsMaxFileSize)
    (hfits : sectorsFor data.length ≤ sectorsFor (entryAt (m.disk d) i).entryCount) {count : Nat}
    (hcount : count ≤ sectorsFor data.length)
    (hcapacity : (entryAt (m.disk d) i).entryCount ≤ capacity) :
    (clawfsWriteFile path.val data (m.meeting (failingAt (readsOf path.val + count)))).1 = false ∧
      (clawfsReadFile path.val capacity ((clawfsWriteFile path.val data
            (m.meeting (failingAt (readsOf path.val + count)))).2.meeting noFaults)).1 =
        ⟨true, some (entryAt (m.disk d) i).entryCount,
          overwritten (fileContents m.disk (entryAt (m.disk d) i)) data count⟩ := by
  have hsize := (h.sound.entries d i h.dir h.live).size
  have hreads : Succeed (failingAt (readsOf path.val + count)) (readsOf path.val) := by
    intro k hk
    rw [failingAt, beq_eq_false_iff_ne]
    omega
  have hlater : later (failingAt (readsOf path.val + count)) (readsOf path.val) =
      failingAt count := by
    funext k
    simp [later, failingAt]
  have htarget : targetFor m.nextFreeSector (entryAt (m.disk d) i) (sectorsFor data.length) =
      some ((entryAt (m.disk d) i).dataSector, m.nextFreeSector) := if_pos hfits
  obtain ⟨fileName, hslot, hwrite⟩ := h.writeFile_eq hlen hreads
  rw [hwrite, hlater]
  have hstores := storeContents_meets h.sound.mounted.initialized data (fun _ => hslot)
    (failingAt count)
  generalize storeContents d (m.disk d) fileName _ data (m.meeting (failingAt count)) = result
    at hstores ⊢
  cases hstores with
  | refused after reason =>
    rcases reason with htype | hlarge | hnone
    · exact absurd h.type htype
    · exact absurd hsize (Nat.not_le.mpr hlarge)
    · rw [htarget] at hnone
      cases hnone
  | stopped after _ chosen =>
    rw [htarget] at chosen
    cases chosen
    obtain ⟨hmounted, hentry⟩ := h.partly_readBack htarget hcount
    have hcontents := h.sound.partly_contents h.dir h.live h.type h.size htarget hcount
    rw [if_neg (Nat.not_lt.mpr hfits)] at hcontents
    rw [written_failingAt, Nat.min_eq_left hcount]
    exact ⟨rfl, readFile_eq hmounted hentry hsize h.size hcontents hcapacity⟩
  | stored after _ _ all last =>
    rw [written_failingAt, Nat.min_eq_left hcount] at all
    rw [← all, failingAt, beq_self_eq_true] at last
    cases last

end FileAt

end NasuaOS.ClawFS
