import NasuaOS.ClawFS.Growing
import NasuaOS.ClawFS.Paths

/-!
# Names over whole runs

`clawfs_mkdir` and `clawfs_create_file_in` take the first free slot of the parent and never look
whether the name is there already (`clawfs.cpp:385–500`). Names stay distinct in the runs that give
them fresh names only, and there a removed name leads nowhere.
-/

namespace NasuaOS.ClawFS

open Base Libc Fat

variable {m m' : Machine} {dirs : Nat → Prop} {depth : Nat → Nat} {d i : Nat}

/-- Entries are made with fresh names, and a restart meets a shallow tree. -/
def Event.Fresh (m : Machine) : Event → Prop
  | .perform op => op.Fresh m.disk
  | .restart => Shallow m.disk

private theorem Drop.findSlot_eq_none (hdrop : Drop m m' dirs d i) (h : Sound m dirs depth)
    (hdistinct : Distinct m.disk dirs) {name : CString} {type : Nat}
    (hslot : removalSlot (m.disk d) name.val type = some i) :
    findSlot (m'.disk d) name.val = none := by
  obtain ⟨hi, hp⟩ := firstSlot_some hslot
  simp only [Bool.and_eq_true] at hp
  cases hf : findSlot (m'.disk d) name.val with
  | none => rfl
  | some j =>
    obtain ⟨hj, hpj⟩ := firstSlot_some hf
    rw [Bool.and_eq_true] at hpj
    obtain ⟨hl, hne⟩ := hdrop.live_cases hdrop.dir ⟨hj, hpj.1⟩
    have hname := hpj.2
    rw [hdrop.edit.named_eq h hdrop.dir hl hne] at hname
    have heq := hdistinct d j i name hdrop.dir hl ⟨hi, hp.1.1⟩ hname hp.1.2
    exact absurd (by rw [heq]) hne

/-- In every run that gives directories fresh names only, no directory holds a name twice, and a
name that was removed leads nowhere. -/
theorem names_unique {total : Nat} (h : Lived Event.Fresh m total) (ht : total < 2 ^ 32) :
    (∀ (p : List Nat) (d i j : Nat) (name : CString), dirAt m.disk p = some d →
      Live m.disk d i → Live m.disk d j → named (m.disk d) name.val i = true →
        named (m.disk d) name.val j = true → i = j) ∧
    ∀ (parentPath name : CString) (type : Nat), (Op.rm parentPath name type).Valid m.disk →
      ((Op.rm parentPath name type).run m).disk ≠ m.disk →
        lookupPath ((Op.rm parentPath name type).run m).disk
          (parentPath.val ++ slash :: name.val) = 0 := by
  obtain ⟨-, dirs, depth, hs, hdistinct⟩ := h.invariant (fun _ hmeets => hmeets)
    (fun m hf => by
      obtain ⟨dirs, depth, hs, -, -, hdistinct⟩ := sound_clawfsFormat hf
      exact ⟨dirs, depth, hs, hdistinct⟩)
    (fun m m' dirs depth op hs hq hfresh he => hs.after_distinct he hfresh hq) ht
  constructor
  · intro p d i j name hp
    exact hdistinct d i j name (hs.dirAt_dir hp).1
  · intro parentPath name type hv hchanged
    rcases hs.rm_drop parentPath name type hv with heq | ⟨d, i, hd, hz, hslot, hdrop⟩
    · exact absurd (by rw [heq]) hchanged
    · have hnone := hdrop.findSlot_eq_none hs hdistinct hslot
      rw [lookupPath, pathTokens_eq] at hd ⊢
      have hthrough := hv.2.2
      rw [pathTokens_eq] at hthrough
      rw [pathNames_concat _ hv.1.1 hv.1.2.2, lookupTokens_append (by decide),
        hs.lookupTokens_eq hdrop.edit.others hthrough hd hz, if_neg hz, lookupTokens,
          findEntry, hnone]
      rfl

/-- The root directory. -/
def rootPath : CString := cstring [slash]

/-- The name `a`. -/
def letterA : CString := cstring (ascii ['a'])

/-- A fresh disk with a new directory `/a`. -/
def withDirectory : Machine := (Op.mkdir rootPath letterA).run (clawfsFormat blank).2

/-- The path `/a`. -/
def slashA : CString := cstring (ascii ['/', 'a'])

/-- The disk with a file `/a/a` in it. -/
def withFile : Machine := (Op.createFileIn slashA letterA).run withDirectory

private theorem withFile_facts :
    ((Op.mkdir rootPath letterA).Valid (clawfsFormat blank).2.disk ∧
      (Op.mkdir rootPath letterA).Fresh (clawfsFormat blank).2.disk) ∧
    ((Op.createFileIn slashA letterA).Valid withDirectory.disk ∧
      (Op.createFileIn slashA letterA).Fresh withDirectory.disk) ∧
    (clawfsFormat blank).2.nextFreeSector +
      (Event.perform (.mkdir rootPath letterA)).allocated (clawfsFormat blank).2 +
        (Event.perform (.createFileIn slashA letterA)).allocated withDirectory < 2 ^ 32 ∧
    (Op.rm slashA letterA clawfsFile).Valid withFile.disk ∧
    (((Op.rm slashA letterA clawfsFile).run withFile).disk
      (lookupPath withFile.disk slashA.val)).byte 0 ≠
        (withFile.disk (lookupPath withFile.disk slashA.val)).byte 0 ∧
    lookupPath withFile.disk (slashA.val ++ slash :: letterA.val) ≠ 0 := by
  decide +kernel

/-- After `mkdir` and `create_file_in`, the path of the file leads somewhere until `rm`. -/
theorem names_unique_withFile :
    lookupPath withFile.disk (slashA.val ++ slash :: letterA.val) ≠ 0 ∧
      lookupPath ((Op.rm slashA letterA clawfsFile).run withFile).disk
        (slashA.val ++ slash :: letterA.val) = 0 := by
  obtain ⟨hmkdir, hcreate, hroom, hrm, hchanged, hfound⟩ := withFile_facts
  have hmade : Lived Event.Fresh withDirectory _ :=
    .step (.perform (.mkdir rootPath letterA)) (.format blank rfl) hmkdir.1 hmkdir.2
  have hlived : Lived Event.Fresh withFile _ :=
    .step (.perform (.createFileIn slashA letterA)) hmade hcreate.1 hcreate.2
  refine ⟨hfound, (names_unique hlived hroom).2 slashA letterA clawfsFile hrm fun heq => ?_⟩
  exact hchanged (by rw [heq])

/-- A fresh disk after `a` was made twice in the root. -/
def madeTwice : Machine × Nat :=
  runOps [.mkdir rootPath letterA, .mkdir rootPath letterA] formatted

/-- Two slots of the root hold the name, and after its removal it still leads to a directory. -/
theorem name_made_twice : Reachable madeTwice.1 madeTwice.2 ∧
    (Live madeTwice.1.disk clawfsRootSector 10 ∧ Live madeTwice.1.disk clawfsRootSector 11 ∧
      named (madeTwice.1.disk clawfsRootSector) letterA.val 10 = true ∧
      named (madeTwice.1.disk clawfsRootSector) letterA.val 11 = true) ∧
    lookupPath ((Op.rm rootPath letterA clawfsDirectory).run madeTwice.1).disk
      (rootPath.val ++ slash :: letterA.val) ≠ 0 := by
  refine ⟨?_, by decide +kernel⟩
  exact ReachableBy.runOps _ (.format blank rfl) (by decide) fun _ _ => trivial

end NasuaOS.ClawFS
