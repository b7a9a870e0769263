import NasuaOS.Authentication.TextForm
import NasuaOS.ClawFS.Faults

/-!
# Saves that fail

`src/kernel_64bit/src/system/authentication/authentication.cpp:305–348` over ClawFS. An account file
that is no larger than before, in sectors, is overwritten in place. When a write fails after the
first one, sectors of the new text stand over the old text, which is still cut at its old length.
-/

namespace NasuaOS.Authentication

open Base Libc ClawFS

variable {deriveHash : Password → Salt → Hash}
variable {m : Machine} {db : Database}

/-- `DATABASE_PATH`. -/
def databasePath : CString :=
  cstring (ascii ['/', 'e', 't', 'c', '/', 'a', 'c', 'c', 'o', 'u', 'n', 't', 's', '.', 'd', 'b'])

/-- The directory of the account file. -/
def etcName : Bytes := ascii ['e', 't', 'c']

/-- Its path. -/
def etcPath : Bytes := slash :: etcName

/-- The sector of `/etc`, which is made if it is not there. -/
def etcSector : ClawM Nat := do
  let sector ← getSectorByPath etcPath
  if sector = 0 then
    let _ ← clawfsMkdir [slash] etcName
    getSectorByPath etcPath
  else
    return sector

/-- `persist_database` on a disk that is no RAM disk. -/
def persistOnDisk (db : Database) : ClawM Bool := do
  if (← clawfsExists) = false then
    return false
  let sector ← etcSector
  if sector = 0 then
    return false
  match ← findEntryInDir clawfsRootSector etcName with
  | none => return false
  | some e =>
    if e.type ≠ clawfsDirectory then
      return false
    match serializeDatabase db with
    | none => return false
    | some text => clawfsWriteFile databasePath.val text

/-- The text of a database. -/
def databaseText (db : Database) : Bytes := (textLines db).flatMap (· ++ [10])

/-- The account file is on the disk, and it is one that is accepted. -/
structure AccountFile (m : Machine) (text : Bytes) : Prop where
  etc : DirPath m.disk etcPath
  entry : ∃ e, fileEntry m.disk databasePath.val = some e ∧ e.entryCount = text.length ∧
    fileContents m.disk e = text
  fits : text.length < databaseCapacity
  accepted : ∃ result, parseDatabase text = some result

/-- The account file is read and accepted. -/
def Accepted (m : Machine) : Prop :=
  ∃ data result, (clawfsReadFile databasePath.val databaseCapacity m).1 =
    ⟨true, some data.length, data⟩ ∧ parseDatabase data = some result

/-- Reads of `persist_database` before its first write. -/
def persistReads : Nat := 1 + (1 + 1) + 1 + readsOf databasePath.val

/-- A new text needs more sectors, or every number of its sectors over the old text is accepted. -/
def Survives (old new : Bytes) : Prop :=
  sectorsFor old.length < sectorsFor new.length ∨
    ∀ count, 0 < count → count ≤ sectorsFor new.length →
      (parseDatabase (overwritten old new count)).isSome = true

variable {text : Bytes}

private theorem AccountFile.length_ne_zero (h : AccountFile m text) : text.length ≠ 0 := by
  obtain ⟨result, haccepted⟩ := h.accepted
  intro hzero
  rw [List.length_eq_zero_iff.mp hzero] at haccepted
  cases haccepted

private theorem splitFilePath_databasePath : splitFilePath databasePath.val =
    some (etcPath, ascii ['a', 'c', 'c', 'o', 'u', 'n', 't', 's', '.', 'd', 'b']) := by
  decide

private theorem pathTokens_etcPath : pathTokens etcPath = [etcName] := by decide

private theorem AccountFile.fileAt (h : AccountFile m text) {dirs : Nat → Prop} {depth : Nat → Nat}
    (hs : Sound m dirs depth) : ∃ d i, FileAt m dirs depth databasePath d i ∧
      (entryAt (m.disk d) i).entryCount = text.length ∧
      fileContents m.disk (entryAt (m.disk d) i) = text := by
  obtain ⟨e, hentry, hcount, hcontents⟩ := h.entry
  simp only [fileEntry, splitFilePath_databasePath, Option.bind_some] at hentry
  split at hentry
  · cases hentry
  · next hz =>
    obtain ⟨f, hfound, hentry⟩ := Option.bind_eq_some_iff.mp hentry
    split at hentry
    · next htype =>
      cases hentry
      obtain ⟨i, hslot, -, -, rfl, -⟩ := findEntry_some hfound
      refine ⟨lookupPath m.disk etcPath, i, ⟨hs, ?_, ?_, htype, ?_⟩, hcount, hcontents⟩
      · exact ⟨_, _, splitFilePath_databasePath, h.etc, rfl, hslot⟩
      · exact (hs.lookupPath_dir h.etc hz).1
      · rw [hcount]
        exact h.length_ne_zero
    · cases hentry

private theorem AccountFile.etc_entry (h : AccountFile m text) :
    lookupPath m.disk etcPath ≠ 0 ∧ ∃ e, findEntry (m.disk clawfsRootSector) etcName = some e ∧
      e.type = clawfsDirectory := by
  obtain ⟨e, hentry, -⟩ := h.entry
  simp only [fileEntry, splitFilePath_databasePath, Option.bind_some] at hentry
  split at hentry
  · cases hentry
  · next hz =>
    refine ⟨hz, ?_⟩
    have hthrough := h.etc.2
    rw [lookupPath, pathTokens_etcPath, lookupTokens] at hz
    rw [pathTokens_etcPath, ThroughDirs] at hthrough
    cases hfound : findEntry (m.disk clawfsRootSector) etcName with
    | none =>
      rw [hfound] at hz
      exact absurd rfl hz
    | some f => exact ⟨f, rfl, (hthrough f hfound).1⟩

private theorem persistOnDisk_eq (hm : Mounted m) (hz : lookupPath m.disk etcPath ≠ 0)
    {e : CLAWFSEntry} (hfound : findEntry (m.disk clawfsRootSector) etcName = some e)
    (htype : e.type = clawfsDirectory) (htext : serializeDatabase db = some text)
    {faults : Nat → Bool} (hreads : Succeed faults (1 + (1 + 1) + 1)) :
    persistOnDisk db (m.meeting faults) =
      clawfsWriteFile databasePath.val text (m.meeting (later faults (1 + (1 + 1) + 1))) := by
  have hlookup := getSectorByPath_reads hm hz
  rw [pathTokens_etcPath] at hlookup
  have hsector : Reads etcSector m (1 + 1) (lookupPath m.disk etcPath) := by
    rw [etcSector]
    refine hlookup.bind (k := 0) ?_
    rw [if_neg hz]
    exact Reads.pure _
  rw [persistOnDisk, (clawfsExists_reads hm).bind_apply hreads.left.left, if_neg (by decide),
    hsector.bind_apply hreads.left.right, if_neg hz, later_later,
    (findEntryInDir_reads _ _).bind_apply hreads.right, later_later, hfound]
  simp only [htype, ne_eq, not_true_eq_false, if_false, htext]

namespace AccountFile

variable {dirs : Nat → Prop} {depth : Nat → Nat} {old : Bytes}

private theorem persist_eq (h : AccountFile m old) (hs : Sound m dirs depth) (hdb : db.RoundTrips)
    {faults : Nat → Bool} (hreads : Succeed faults (1 + (1 + 1) + 1)) :
    persistOnDisk db (m.meeting faults) = clawfsWriteFile databasePath.val (databaseText db)
      (m.meeting (later faults (1 + (1 + 1) + 1))) := by
  obtain ⟨hz, e, hfound, htype⟩ := h.etc_entry
  exact persistOnDisk_eq hs.mounted hz hfound htype hdb.text hreads

private theorem length_le (hdb : db.RoundTrips) : (databaseText db).length ≤ clawfsMaxFileSize :=
  Nat.le_trans (Nat.le_of_lt hdb.fits) (by decide)

private theorem persist_fails (h : AccountFile m old) (hs : Sound m dirs depth)
    (hdb : db.RoundTrips) {faults : Nat → Bool} (hreads : Succeed faults persistReads)
    (hfalse : (persistOnDisk db (m.meeting faults)).1 = false) :
    ∃ count, count ≤ sectorsFor (databaseText db).length ∧
      (sectorsFor old.length < sectorsFor (databaseText db).length → count = 0) ∧
      (clawfsReadFile databasePath.val databaseCapacity
          ((persistOnDisk db (m.meeting faults)).2.meeting noFaults)).1 =
        ⟨true, some old.length, overwritten old (databaseText db) count⟩ := by
  obtain ⟨d, i, hfile, hcount, hcontents⟩ := h.fileAt hs
  have hfits := h.fits
  rw [h.persist_eq hs hdb hreads.left] at hfalse ⊢
  rw [← hcount] at hfits ⊢
  rw [← hcontents]
  exact hfile.writeFile_fails (length_le hdb) hreads.right hfalse (Nat.le_of_lt hfits)

private theorem persist_stops (h : AccountFile m old) (hs : Sound m dirs depth)
    (hdb : db.RoundTrips) (hroom : sectorsFor (databaseText db).length ≤ sectorsFor old.length)
    {count : Nat} (hle : count ≤ sectorsFor (databaseText db).length) :
    ∃ faults, Succeed faults persistReads ∧ (persistOnDisk db (m.meeting faults)).1 = false ∧
      (clawfsReadFile databasePath.val databaseCapacity
          ((persistOnDisk db (m.meeting faults)).2.meeting noFaults)).1 =
        ⟨true, some old.length, overwritten old (databaseText db) count⟩ := by
  obtain ⟨d, i, hfile, hcount, hcontents⟩ := h.fileAt hs
  have hfits := h.fits
  have hreads : Succeed (failingAt (persistReads + count)) persistReads := by
    intro k hk
    rw [failingAt, beq_eq_false_iff_ne]
    omega
  have hlater : later (failingAt (persistReads + count)) (1 + (1 + 1) + 1) =
      failingAt (readsOf databasePath.val + count) := by
    funext k
    rw [later, failingAt, failingAt, persistReads, Nat.add_assoc, Bool.eq_iff_iff, beq_iff_eq,
      beq_iff_eq]
    omega
  refine ⟨_, hreads, ?_⟩
  rw [h.persist_eq hs hdb hreads.left, hlater]
  rw [← hcount] at hfits hroom ⊢
  rw [← hcontents]
  exact hfile.writeFile_stops (length_le hdb) hroom hle (Nat.le_of_lt hfits)

end AccountFile

private theorem length_overwritten (old new : Bytes) (count : Nat) :
    (overwritten old new count).length = old.length := by
  rw [overwritten, List.length_map, List.length_range]

/-- Whatever account file is on the disk and whatever database is saved over it: a failed save leaves
a file that is accepted, for every pattern of failing writes, exactly when the new text survives. -/
theorem failed_save_accepted_iff {total : Nat} (hm : ClawFS.Reachable m total)
    (htotal : total < 2 ^ 32) {old : Bytes} (hfile : AccountFile m old)
    (hsaved : Saved deriveHash db) :
    (∀ faults, Succeed faults persistReads → (persistOnDisk db (m.meeting faults)).1 = false →
      Accepted ((persistOnDisk db (m.meeting faults)).2.meeting noFaults)) ↔
      Survives old (databaseText db) := by
  obtain ⟨-, dirs, depth, hsound, -⟩ := hm.sound htotal
  have hdb := hsaved.sound.roundTrips
  constructor
  · intro hall
    by_cases hmore : sectorsFor old.length < sectorsFor (databaseText db).length
    · exact .inl hmore
    · refine .inr fun count _ hle => ?_
      obtain ⟨faults, hreads, hfalse, hread⟩ :=
        hfile.persist_stops hsound hdb (Nat.not_lt.mp hmore) hle
      obtain ⟨data, result, hdata, hparse⟩ := hall faults hreads hfalse
      rw [hread, ReadOutcome.mk.injEq] at hdata
      rw [hdata.2.2, hparse]
      rfl
  · intro hsurvives faults hreads hfalse
    obtain ⟨count, hle, hzero, hread⟩ := hfile.persist_fails hsound hdb hreads hfalse
    have hlength := length_overwritten old (databaseText db) count
    have haccepted : ∃ result, parseDatabase (overwritten old (databaseText db) count) =
        some result := by
      by_cases hnone : count = 0
      · rw [hnone, overwritten_zero]
        exact hfile.accepted
      · rcases hsurvives with hmore | hsurvives
        · exact absurd (hzero hmore) hnone
        · exact Option.isSome_iff_exists.mp (hsurvives count (Nat.pos_of_ne_zero hnone) hle)
    obtain ⟨result, hparse⟩ := haccepted
    rw [← hlength] at hread
    exact ⟨_, result, hread, hparse⟩

/-- The accounts of the first start. -/
def firstDatabase : Database := seedDefaults plainHash (Vector.replicate _ 0) (Vector.replicate _ 0)

/-- A formatted disk on which they were saved. -/
def firstDisk : Machine := (persistOnDisk firstDatabase (clawfsFormat blank).2).2

private theorem firstDatabase_saved : Saved plainHash firstDatabase :=
  .seeded ⟨formattedDisk, none, none, false, Vector.replicate _ 0, Vector.replicate _ 0⟩

-- One evaluation of the formatted disk answers all that is asked of it.
private theorem formatted_etc : lookupPath (clawfsFormat blank).2.disk etcPath ≠ 0 ∧
    findEntry ((clawfsFormat blank).2.disk clawfsRootSector) etcName =
      some ⟨clawfsDirectory, 107, 0⟩ ∧
    (Op.writeFile databasePath (databaseText firstDatabase)).Valid (clawfsFormat blank).2.disk ∧
    (clawfsFormat blank).2.nextFreeSector + allocatedBy (clawfsFormat blank).2
      ((Op.writeFile databasePath (databaseText firstDatabase)).run (clawfsFormat blank).2) <
      2 ^ 32 := by
  decide +kernel

private theorem firstDisk_eq : firstDisk =
    (Op.writeFile databasePath (databaseText firstDatabase)).run (clawfsFormat blank).2 := by
  obtain ⟨dirs, depth, hs, -⟩ := sound_clawfsFormat (m := blank) rfl
  have hreads : Succeed noFaults (1 + (1 + 1) + 1) := fun _ _ => rfl
  have heq := persistOnDisk_eq hs.mounted formatted_etc.1 formatted_etc.2.1 rfl
    firstDatabase_saved.sound.roundTrips.text hreads
  have hfaults : (clawfsFormat blank).2.meeting noFaults = (clawfsFormat blank).2 := by
    rw [Machine.meeting, ← hs.mounted.faultless]
  rw [show later noFaults (1 + (1 + 1) + 1) = noFaults from rfl, hfaults] at heq
  rw [firstDisk, heq]
  rfl

private theorem firstDisk_accountFile : AccountFile firstDisk (databaseText firstDatabase) := by
  obtain ⟨hetc, hentry, hcontents⟩ : DirPath firstDisk.disk etcPath ∧
      fileEntry firstDisk.disk databasePath.val =
        some ⟨clawfsFile, 132, (databaseText firstDatabase).length⟩ ∧
      fileContents firstDisk.disk ⟨clawfsFile, 132, (databaseText firstDatabase).length⟩ =
        databaseText firstDatabase := by
    decide +kernel
  have hdb := firstDatabase_saved.sound.roundTrips
  exact ⟨hetc, ⟨_, hentry, rfl, hcontents⟩, hdb.fits, _, hdb.restored⟩

private theorem firstDisk_reachable : ClawFS.Reachable firstDisk
    ((clawfsFormat blank).2.nextFreeSector + allocatedBy (clawfsFormat blank).2
      ((Op.writeFile databasePath (databaseText firstDatabase)).run (clawfsFormat blank).2)) := by
  rw [firstDisk_eq]
  exact .step _ (.format blank rfl) formatted_etc.2.2.1 trivial

private theorem database_becomeRoot :
    (run plainHash firstStart becomeRoot).database = firstDatabase := root_state.2.2.2

/-- `login --on` changes one character: whichever writes fail, the file is accepted. -/
theorem failed_save_accepted_login :
    sectorsFor (databaseText { firstDatabase with loginEnabled := true }).length = 1 ∧
    ∀ faults, Succeed faults persistReads →
      (persistOnDisk { firstDatabase with loginEnabled := true } (firstDisk.meeting faults)).1 =
        false →
      Accepted ((persistOnDisk { firstDatabase with loginEnabled := true }
        (firstDisk.meeting faults)).2.meeting noFaults) := by
  have hone : sectorsFor (databaseText { firstDatabase with loginEnabled := true }).length = 1 := by
    decide +kernel
  have hentered : Entered (run plainHash firstStart becomeRoot)
      (.command .login (cstring (ascii ['-', '-', 'o', 'n'])) formattedDisk) := root_state.1
  have hsaved := Saved.step reachable_root hentered (.loginOn (by decide) root_state.2.1)
  rw [database_becomeRoot] at hsaved
  refine ⟨hone, ?_⟩
  apply (failed_save_accepted_iff firstDisk_reachable formatted_etc.2.2.2 firstDisk_accountFile
    hsaved).mpr
  refine .inr fun count hpos hle => ?_
  obtain rfl : count = 1 := Nat.le_antisymm (hone ▸ hle) hpos
  decide +kernel

/-- The accounts after `user` became `users`. -/
def renamedDatabase : Database :=
  ((withName 1 user ⟨ascii ['u', 's', 'e', 'r', 's'], by decide⟩
    (run plainHash firstStart becomeRoot)).session).database

/-- `usermod user users` of the administrator. -/
def renameUser : Event :=
  .command .usermod (cstring (ascii ['u', 's', 'e', 'r', ' ', 'u', 's', 'e', 'r', 's']))
    formattedDisk

private theorem persists_renameUser : ∃ after,
    Persists plainHash (run plainHash firstStart becomeRoot) renameUser after ∧
      after.database = renamedDatabase := by
  have haccounts : (run plainHash firstStart becomeRoot).accounts = firstDatabase.accounts := by
    rw [← database_becomeRoot, State.database]
  have hfound : findAccount (run plainHash firstStart becomeRoot).accounts user = some 1 := by
    rw [haccounts]
    decide
  have hfresh : findAccount (run plainHash firstStart becomeRoot).accounts
      ⟨ascii ['u', 's', 'e', 'r', 's'], by decide⟩ = none := by
    rw [haccounts]
    decide
  refine ⟨_, .renamed (by decide) root_state.2.2.1 hfound hfresh, ?_⟩
  rw [renamedDatabase]

/-- The administrator renames `user` on the disk of the first start. The sector of the account file
is written and the write of the directory fails: the save returns false, the new text is cut at the
old length, and the next start refuses the file. -/
theorem failed_save_blocks_login :
    Reachable plainHash (run plainHash firstStart becomeRoot) ∧
    Entered (run plainHash firstStart becomeRoot) renameUser ∧
    AccountFile firstDisk (databaseText (run plainHash firstStart becomeRoot).database) ∧
    (∃ after, Persists plainHash (run plainHash firstStart becomeRoot) renameUser after ∧
      after.database = renamedDatabase) ∧
    ∃ faults, Succeed faults persistReads ∧
      (persistOnDisk renamedDatabase (firstDisk.meeting faults)).1 = false ∧
      ¬ Accepted ((persistOnDisk renamedDatabase (firstDisk.meeting faults)).2.meeting noFaults) := by
  have hentered : Entered (run plainHash firstStart becomeRoot) renameUser := root_state.1
  refine ⟨reachable_root, hentered, database_becomeRoot ▸ firstDisk_accountFile,
    persists_renameUser, ?_⟩
  obtain ⟨-, dirs, depth, hsound, -⟩ := firstDisk_reachable.sound formatted_etc.2.2.2
  obtain ⟨after, hpersists, hafter⟩ := persists_renameUser
  have hdb : renamedDatabase.RoundTrips :=
    hafter ▸ (Saved.step reachable_root hentered hpersists).sound.roundTrips
  have hone : sectorsFor (databaseText renamedDatabase).length = 1 := by decide +kernel
  have hroom : sectorsFor (databaseText renamedDatabase).length ≤
      sectorsFor (databaseText firstDatabase).length := by
    rw [hone]
    decide +kernel
  obtain ⟨faults, hreads, hfalse, hread⟩ := firstDisk_accountFile.persist_stops hsound hdb hroom
    (Nat.le_of_eq hone.symm)
  refine ⟨faults, hreads, hfalse, ?_⟩
  rintro ⟨data, result, hdata, hparse⟩
  have hrefused : parseDatabase (overwritten (databaseText firstDatabase)
      (databaseText renamedDatabase) 1) = none := by decide +kernel
  rw [hread, ReadOutcome.mk.injEq] at hdata
  rw [← hdata.2.2, hrefused] at hparse
  cases hparse

end NasuaOS.Authentication
