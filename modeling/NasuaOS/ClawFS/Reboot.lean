import NasuaOS.ClawFS.Runs

/-!
# Rebuilding the allocator after a reboot

A reboot loses the allocator variables; the next `clawfs_exists` rebuilds them from the tree.
The rebuild stops at depth 32 while paths of up to 127 bytes name directories twice as deep, so
entries below that depth are not seen. `clawfs.cpp:75–136,558–588`.
-/

namespace NasuaOS.ClawFS

open Base Libc

variable {m : Machine}

/-- The state after a reboot: the static variables have their initial values. -/
def reboot (m : Machine) : Machine :=
  { m with nextFreeSector := firstFreeSector, allocatorInitialized := false }

/-- `clawfs_exists` after a reboot. -/
theorem clawfsExists_reboot (h : Mounted m) : clawfsExists (reboot m) =
      (true, { m with nextFreeSector := rebuilt m.disk, allocatorInitialized := true }) := by
  rw [clawfsExists_unmounted]
  · rfl
  · exact h.header
  · rfl
  · exact h.faultless

private theorem getNextFreeSector_reboot (h : Mounted m) :
    (getNextFreeSector (reboot m)).1 = rebuilt m.disk := by
  have hi : initializeAllocator (reboot m) =
      (true, { m with nextFreeSector := rebuilt m.disk, allocatorInitialized := true }) := by
    have hu : (reboot m).allocatorInitialized = false := rfl
    simp only [initializeAllocator, bind_apply, get_apply, hu, Bool.false_eq_true, if_false,
      clawfsExists_reboot h, Bool.true_eq_false]
    rw [rebuildAllocator_faultless]
    · rfl
    · exact h.faultless
  simp only [getNextFreeSector, bind_apply, get_apply, set_apply, hi, pure_apply]

/-- In every run that puts entries only into directories less than 32 levels down, the
allocator rebuilt after a reboot is past every sector in use. -/
theorem reboot_safe {total : Nat} (h : ReachableBy (fun op => op.level < rebuildLevels) m total)
    (ht : total < 2 ^ 32) :
    (clawfsExists (reboot m)).1 = true ∧
      clawfsRootSector < (clawfsExists (reboot m)).2.nextFreeSector ∧
      ∀ p i e, treeEntry m.disk p i = some e → ∀ s ∈ owned e,
        s < (clawfsExists (reboot m)).2.nextFreeSector ∧ (getNextFreeSector (reboot m)).1 ≠ s := by
  obtain ⟨-, dirs, depth, hs, hb⟩ := h.sound ht
  have hbound := hb (fun op hop => hop)
  rw [clawfsExists_reboot hs.mounted, getNextFreeSector_reboot hs.mounted]
  refine ⟨rfl, ?_, ?_⟩
  · exact Nat.lt_of_lt_of_le (by decide) hs.rebuilt_bounds.1
  · intro p i e he s ho
    obtain ⟨d, hd, hl, rfl⟩ := (treeEntry_eq_some_iff m.disk p i e).mp he
    have hdir := (hs.dirAt_dir hd).1
    have hend := hs.entry_le_rebuilt hdir hl (hbound d i hdir hl)
    rw [owned, Finset.mem_Ico] at ho
    have hlt : s < rebuilt m.disk := by omega
    exact ⟨hlt, Nat.ne_of_gt hlt⟩

/-- The path `/a/a/…` of `n` components, or the root. -/
def nestedPath (n : Nat) : CString :=
  cstring (if n = 0 then [slash] else (List.replicate n (ascii ['/', 'a'])).flatten)

/-- Make `n` directories named `a`, each inside the one before. -/
def nestedMkdirs (n : Nat) : List Op :=
  (List.range n).map fun k => .mkdir (nestedPath k) (cstring (ascii ['a']))

/-- A formatted blank disk and its allocator. -/
def formatted : Machine × Nat := ((clawfsFormat blank).2, (clawfsFormat blank).2.nextFreeSector)

/-- A directory made in a fresh disk survives a reboot. -/
theorem reboot_safe_nested :
    (runOps (nestedMkdirs 2) formatted).2 < 2 ^ 32 ∧
      (clawfsExists (reboot (runOps (nestedMkdirs 2) formatted).1)).1 = true := by
  have hroom : (runOps (nestedMkdirs 2) formatted).2 < 2 ^ 32 := by decide +kernel
  have hvalid : ValidRun (nestedMkdirs 2) (clawfsFormat blank).2 := by decide +kernel
  have hlevel : ∀ op ∈ nestedMkdirs 2, op.level < rebuildLevels := by decide +kernel
  exact ⟨hroom, (reboot_safe (ReachableBy.runOps _ (.format blank rfl) hvalid hlevel) hroom).1⟩

set_option maxRecDepth 100000 in
/-- With 33 nested directories the rebuild misses the innermost one, and its sector is the next
to be handed out. -/
theorem reboot_reuses_sector :
    ∃ m total, Reachable m total ∧ total < 2 ^ 32 ∧
      ∃ p i e s, treeEntry m.disk p i = some e ∧ s ∈ owned e ∧
        ¬ s < (clawfsExists (reboot m)).2.nextFreeSector ∧
        (getNextFreeSector (reboot m)).1 = s := by
  have hrun : ValidRun (nestedMkdirs 33) (clawfsFormat blank).2 ∧
      (runOps (nestedMkdirs 33) formatted).2 < 2 ^ 32 ∧
      treeEntry (runOps (nestedMkdirs 33) formatted).1.disk (10 :: List.replicate 31 0) 0 =
        some ⟨clawfsDirectory, 164, 0⟩ ∧
      (clawfsExists (reboot (runOps (nestedMkdirs 33) formatted).1)).2.nextFreeSector = 164 ∧
      (getNextFreeSector (reboot (runOps (nestedMkdirs 33) formatted).1)).1 = 164 := by
    decide +kernel
  obtain ⟨hvalid, hroom, hentry, hnext, hhanded⟩ := hrun
  have hreach : Reachable (runOps (nestedMkdirs 33) formatted).1
      (runOps (nestedMkdirs 33) formatted).2 :=
    ReachableBy.runOps (nestedMkdirs 33) (.format blank rfl) hvalid (fun _ _ => trivial)
  generalize runOps (nestedMkdirs 33) formatted = r at *
  exact ⟨r.1, r.2, hreach, hroom, 10 :: List.replicate 31 0, 0, ⟨clawfsDirectory, 164, 0⟩, 164,
    hentry, by decide, Nat.not_lt.mpr (Nat.le_of_eq hnext), hhanded⟩

end NasuaOS.ClawFS
