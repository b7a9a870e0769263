import NasuaOS.Base.Forest
import NasuaOS.ClawFS.Semantics
import Mathlib.Order.Interval.Finset.Nat

/-!
# The ClawFS tree and its runs

Entries of the tree are named by slots, not by names: the directory at a slot path from the
root, and a slot in it. A run starts with `clawfs_format` on an arbitrary disk and continues
with any operations whose paths stay in directories, the disk answering every request.
-/

namespace NasuaOS.ClawFS

open Base Libc

/-- Slot `i` of the directory in sector `d` is in use. -/
def Live (disk : Disk) (d i : Nat) : Prop := i < slotCount ∧ used (disk d) i = true

instance (disk : Disk) (d i : Nat) : Decidable (Live disk d i) :=
  inferInstanceAs (Decidable (_ ∧ _))

/-- Directory below slot `i` of the directory in sector `d`. -/
def childDir (disk : Disk) (d i : Nat) : Option Nat :=
  if Live disk d i ∧ (entryAt (disk d) i).type = clawfsDirectory then
    some (entryAt (disk d) i).dataSector
  else none

/-- Sector of the directory at a slot path. -/
def dirAt (disk : Disk) (p : List Nat) : Option Nat :=
  walk (childDir disk) clawfsRootSector p

/-- The entry in slot `i` of the directory at slot path `p`. -/
def treeEntry (disk : Disk) (p : List Nat) (i : Nat) : Option CLAWFSEntry :=
  (dirAt disk p).bind fun d => if Live disk d i then some (entryAt (disk d) i) else none

/-- Sectors that belong to an entry. -/
def owned (e : CLAWFSEntry) : Finset Nat := Finset.Ico e.dataSector (e.dataSector + ownedCount e)

/-- Every component that is found names a directory. -/
def ThroughDirs (disk : Disk) : Nat → List Bytes → Prop
  | _, [] => True
  | dir, token :: rest =>
    ∀ e, findEntry (disk dir) token = some e →
      e.type = clawfsDirectory ∧ ThroughDirs disk e.dataSector rest

instance decidableThroughDirs (disk : Disk) :
    (dir : Nat) → (tokens : List Bytes) → Decidable (ThroughDirs disk dir tokens)
  | _, [] => isTrue trivial
  | dir, token :: rest =>
    match h : findEntry (disk dir) token with
    | none => isTrue fun e he => by rw [h] at he; cases he
    | some e =>
      have := decidableThroughDirs disk e.dataSector rest
      decidable_of_iff (e.type = clawfsDirectory ∧ ThroughDirs disk e.dataSector rest)
        ⟨fun ht _ he => by rw [h] at he; cases he; exact ht, fun ht => ht e h⟩

/-- A path that fits the kernel's copy and stays in directories. -/
def DirPath (disk : Disk) (path : Bytes) : Prop :=
  path.length < 128 ∧ ThroughDirs disk clawfsRootSector (pathTokens path)

instance (disk : Disk) (path : Bytes) : Decidable (DirPath disk path) :=
  inferInstanceAs (Decidable (_ ∧ _))

/-- A name an entry can hold. -/
def ValidName (name : Bytes) : Prop := name ≠ [] ∧ name.length < 28 ∧ slash ∉ name

instance (name : Bytes) : Decidable (ValidName name) :=
  inferInstanceAs (Decidable (_ ∧ _))

/-- The operations of a run. -/
inductive Op
  | mkdir (parentPath dirName : CString)
  | createFileIn (path name : CString)
  | writeFile (path : CString) (data : Bytes)
  | rm (parentPath name : CString) (type : Nat)

/-- Perform one operation. -/
def Op.run : Op → Machine → Machine
  | .mkdir parentPath dirName, m => (clawfsMkdir parentPath.val dirName.val m).2
  | .createFileIn path name, m => (clawfsCreateFileIn path.val name.val m).2
  | .writeFile path data, m => (clawfsWriteFile path.val data m).2
  | .rm parentPath name type, m => (clawfsRm parentPath.val name.val type m).2

/-- Names are entry names and parents stay in directories. -/
def Op.Valid (disk : Disk) : Op → Prop
  | .mkdir parentPath dirName => ValidName dirName.val ∧ DirPath disk parentPath.val
  | .createFileIn path name => ValidName name.val ∧ DirPath disk path.val
  | .writeFile path _ =>
    ∀ parentPath fileName, splitFilePath path.val = some (parentPath, fileName) →
      DirPath disk parentPath
  | .rm parentPath name _ => ValidName name.val ∧ DirPath disk parentPath.val

instance (disk : Disk) : (op : Op) → Decidable (op.Valid disk)
  | .mkdir _ _ => inferInstanceAs (Decidable (_ ∧ _))
  | .createFileIn _ _ => inferInstanceAs (Decidable (_ ∧ _))
  | .rm _ _ _ => inferInstanceAs (Decidable (_ ∧ _))
  | .writeFile path _ =>
    match h : splitFilePath path.val with
    | none => isTrue fun _ _ hs => by rw [h] at hs; cases hs
    | some (parentPath, fileName) =>
      decidable_of_iff (DirPath disk parentPath)
        ⟨fun hp _ _ hs => by rw [h] at hs; cases hs; exact hp, fun hv => hv parentPath fileName h⟩

/-- Sectors that one operation took from the bump allocator, a 32-bit difference. -/
def allocatedBy (m m' : Machine) : Nat := (m'.nextFreeSector + 2 ^ 32 - m.nextFreeSector) % 2 ^ 32

/-- States of a run whose operations all meet `ok`, with the number of sectors allocated so far.
Formatting accounts for all sectors below its allocator. -/
inductive ReachableBy (ok : Op → Prop) : Machine → Nat → Prop
  | format (m : Machine) (faultless : m.faults = noFaults) :
      ReachableBy ok (clawfsFormat m).2 (clawfsFormat m).2.nextFreeSector
  | step {m : Machine} {total : Nat} (op : Op) (before : ReachableBy ok m total)
      (valid : op.Valid m.disk) (meets : ok op) :
      ReachableBy ok (op.run m) (total + allocatedBy m (op.run m))

/-- States of a run. -/
abbrev Reachable : Machine → Nat → Prop := ReachableBy fun _ => True

/-- Operations in a row, with the number of sectors allocated so far. -/
def runOps : List Op → Machine × Nat → Machine × Nat
  | [], s => s
  | op :: rest, s => runOps rest (op.run s.1, s.2 + allocatedBy s.1 (op.run s.1))

/-- Every operation of a row is valid when its turn comes. -/
def ValidRun : List Op → Machine → Prop
  | [], _ => True
  | op :: rest, m => op.Valid m.disk ∧ ValidRun rest (op.run m)

instance decidableValidRun : (ops : List Op) → (m : Machine) → Decidable (ValidRun ops m)
  | [], _ => isTrue trivial
  | op :: rest, m =>
    have := decidableValidRun rest (op.run m)
    inferInstanceAs (Decidable (op.Valid m.disk ∧ ValidRun rest (op.run m)))

/-- A row of valid operations continues a run. -/
theorem ReachableBy.runOps {ok : Op → Prop} (ops : List Op) {m : Machine} {total : Nat}
    (h : ReachableBy ok m total) (hv : ValidRun ops m) (hok : ∀ op ∈ ops, ok op) :
    ReachableBy ok (runOps ops (m, total)).1 (runOps ops (m, total)).2 := by
  induction ops generalizing m total with
  | nil => exact h
  | cons op rest ih =>
    apply ih (.step op h hv.1 (hok op (by simp))) hv.2
    intro o ho
    exact hok o (by simp [ho])

/-- An entry of the tree sits in a directory of the tree. -/
theorem treeEntry_eq_some_iff (disk : Disk) (p : List Nat) (i : Nat) (e : CLAWFSEntry) :
    treeEntry disk p i = some e ↔
      ∃ d, dirAt disk p = some d ∧ Live disk d i ∧ entryAt (disk d) i = e := by
  rw [treeEntry, Option.bind_eq_some_iff]
  constructor
  · rintro ⟨d, hd, he⟩
    split at he
    · next hl => exact ⟨d, hd, hl, Option.some.inj he⟩
    · cases he
  · rintro ⟨d, hd, hl, he⟩
    exact ⟨d, hd, by rw [if_pos hl, he]⟩

/-- A child directory is a used slot of directory type. -/
theorem childDir_eq_some_iff (disk : Disk) (d i c : Nat) : childDir disk d i = some c ↔
      Live disk d i ∧ (entryAt (disk d) i).type = clawfsDirectory ∧
        (entryAt (disk d) i).dataSector = c := by
  rw [childDir]
  split
  · next h => simp [h.1, h.2]
  · next h =>
    constructor
    · intro hn
      cases hn
    · rintro ⟨hl, ht, -⟩
      exact absurd ⟨hl, ht⟩ h

variable {p : Nat → Bool}

/-- The slot a search stops at is a slot and passes the test. -/
theorem firstSlot_some {i : Nat} (h : firstSlot p = some i) : i < slotCount ∧ p i = true := by
  refine ⟨?_, List.find?_some h⟩
  simpa using List.mem_of_find?_eq_some h

/-- A search that stops nowhere rejected every slot. -/
theorem firstSlot_none (h : firstSlot p = none) (i : Nat) (hi : i < slotCount) : p i = false := by
  have hn := List.find?_eq_none.mp h i (by simpa using hi)
  simpa using hn

/-- A search stops at the first slot that passes. -/
theorem firstSlot_eq_some_iff {i : Nat} :
    firstSlot p = some i ↔ i < slotCount ∧ p i = true ∧ ∀ j, j < i → p j = false := by
  rw [firstSlot, List.find?_range_eq_some]
  simp only [List.mem_range, Bool.not_eq_eq_eq_not, Bool.not_true]
  exact and_left_comm

/-- Searches with tests that agree on the slots stop at the same one. -/
theorem firstSlot_congr {q : Nat → Bool} (h : ∀ i, i < slotCount → p i = q i) :
    firstSlot p = firstSlot q := by
  ext i
  rw [firstSlot_eq_some_iff, firstSlot_eq_some_iff]
  apply and_congr_right
  intro hi
  rw [h i hi]
  apply and_congr_right
  intro _
  apply forall_congr'
  intro j
  apply imp_congr_right
  intro hj
  rw [h j (Nat.lt_trans hj hi)]

/-- A found entry sits in a live slot with the name and has a sector. -/
theorem findEntry_some {disk : Disk} {d : Nat} {name : Bytes} {e : CLAWFSEntry}
    (h : findEntry (disk d) name = some e) :
    ∃ i, findSlot (disk d) name = some i ∧ Live disk d i ∧ named (disk d) name i = true ∧
      entryAt (disk d) i = e ∧ e.dataSector ≠ 0 := by
  rw [findEntry, Option.bind_eq_some_iff] at h
  obtain ⟨i, hi, he⟩ := h
  have hs := firstSlot_some hi
  rw [Bool.and_eq_true] at hs
  split at he
  · cases he
  · next hz =>
    have he := Option.some.inj he
    exact ⟨i, hi, ⟨hs.1, hs.2.1⟩, hs.2.2, he, he ▸ hz⟩

end NasuaOS.ClawFS
