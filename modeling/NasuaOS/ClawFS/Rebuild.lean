import NasuaOS.ClawFS.Steps

/-!
# The allocator rebuild

`update_allocator_from_directory` walks the tree down to a fixed depth and raises the allocator
past every entry it meets. It never passes the allocator that the run left, and it passes every
entry above that depth. `src/kernel_64bit/src/system/filesystem/clawfs/clawfs.cpp:75–130`.
-/

namespace NasuaOS.ClawFS

open Base Libc

variable {m : Machine} {dirs : Nat → Prop} {depth : Nat → Nat} {d i : Nat}

private theorem le_rebuildFrom (disk : Disk) (levels dir next : Nat) :
    next ≤ rebuildFrom disk levels dir next := by
  induction levels generalizing dir next with
  | zero => exact Nat.le_refl next
  | succ levels ih =>
    rw [rebuildFrom]
    split
    · exact Nat.le_refl next
    · apply le_foldl
      intro k i
      rw [rebuildSlot]
      split
      · exact Nat.le_refl k
      · split
        · exact Nat.le_trans (Nat.le_max_left k _) (ih _ _)
        · exact Nat.le_max_left k _

private theorem le_rebuildSlot (disk : Disk) (levels : Nat) (buffer : Sector)
    (next i : Nat) : next ≤ rebuildSlot (rebuildFrom disk levels) buffer next i := by
  rw [rebuildSlot]
  split
  · exact Nat.le_refl next
  · split
    · exact Nat.le_trans (Nat.le_max_left next _) (le_rebuildFrom _ _ _ _)
    · exact Nat.le_max_left next _

private theorem EntryOk.rebuildCount_eq {buffer : Sector} {next : Nat} (h : EntryOk buffer next i) :
    rebuildCount (entryAt buffer i) = ownedCount (entryAt buffer i) := by
  have hs := h.size
  rw [rebuildCount, ownedCount]
  rcases h.type with ht | ht
  · simp only [ht, file_ne_directory, if_false, true_and]
    split
    · omega
    · omega
  · simp only [ht, Ne.symm file_ne_directory, false_and, if_true, if_false]

section

variable (h : Sound m dirs depth)

include h

private theorem Sound.sectorEnd_eq (hd : dirs d) (hl : Live m.disk d i) :
    ((entryAt (m.disk d) i).dataSector + rebuildCount (entryAt (m.disk d) i)) % 2 ^ 32 =
      (entryAt (m.disk d) i).dataSector + ownedCount (entryAt (m.disk d) i) := by
  have hok := h.entries d i hd hl
  rw [hok.rebuildCount_eq, Nat.mod_eq_of_lt]
  exact Nat.lt_of_le_of_lt hok.upper h.high

private theorem Sound.dir_ne_zero (hd : dirs d) : d ≠ 0 := by
  have hb := (h.dir_bounds hd).1
  simp only [clawfsRootSector] at hb
  omega

private theorem Sound.not_skipped (hd : dirs d) (hl : Live m.disk d i) :
    ¬ (used (m.disk d) i = false ∨ (entryAt (m.disk d) i).dataSector = 0) := by
  rintro (hu | hz)
  · rw [hl.2] at hu
    cases hu
  · have hlow := (h.entries d i hd hl).lower
    rw [hz] at hlow
    exact absurd hlow (by decide)

private theorem Sound.rebuildFrom_le (levels : Nat) (hd : dirs d) {next : Nat}
    (hn : next ≤ m.nextFreeSector) : rebuildFrom m.disk levels d next ≤ m.nextFreeSector := by
  induction levels generalizing d next with
  | zero => exact hn
  | succ levels ih =>
    rw [rebuildFrom, if_neg (h.dir_ne_zero hd)]
    apply foldl_invariant (P := fun k => k ≤ m.nextFreeSector) _ _ _ hn
    intro k i hi hk
    rw [rebuildSlot]
    split
    · exact hk
    · next hs =>
      rw [not_or] at hs
      have hl : Live m.disk d i := ⟨List.mem_range.mp hi, by simpa using hs.1⟩
      have hmax : max k (((entryAt (m.disk d) i).dataSector +
          rebuildCount (entryAt (m.disk d) i)) % 2 ^ 32) ≤ m.nextFreeSector := by
        rw [h.sectorEnd_eq hd hl]
        exact Nat.max_le.mpr ⟨hk, (h.entries d i hd hl).upper⟩
      split
      · next ht => exact ih (h.children d i hd hl ht).1 hmax
      · exact hmax

private theorem Sound.entry_le_rebuildFrom (levels : Nat) (hd : dirs d) (hl : Live m.disk d i)
    (next : Nat) : (entryAt (m.disk d) i).dataSector + ownedCount (entryAt (m.disk d) i) ≤
      rebuildFrom m.disk (levels + 1) d next := by
  rw [rebuildFrom, if_neg (h.dir_ne_zero hd)]
  apply le_foldl_of_mem _ _ _ _ (fun k j => le_rebuildSlot _ _ _ k j) i (List.mem_range.mpr hl.1)
  intro k
  rw [rebuildSlot, if_neg (h.not_skipped hd hl), ← h.sectorEnd_eq hd hl]
  split
  · exact Nat.le_trans (Nat.le_max_right k _) (le_rebuildFrom _ _ _ _)
  · exact Nat.le_max_right k _

private theorem Sound.child_le_rebuildFrom (levels : Nat) (hd : dirs d) (hl : Live m.disk d i)
    (ht : (entryAt (m.disk d) i).type = clawfsDirectory) {bound : Nat}
    (hb : ∀ next, bound ≤ rebuildFrom m.disk levels (entryAt (m.disk d) i).dataSector next)
    (next : Nat) : bound ≤ rebuildFrom m.disk (levels + 1) d next := by
  rw [rebuildFrom, if_neg (h.dir_ne_zero hd)]
  apply le_foldl_of_mem _ _ _ _ (fun k j => le_rebuildSlot _ _ _ k j) i (List.mem_range.mpr hl.1)
  intro k
  rw [rebuildSlot, if_neg (h.not_skipped hd hl), if_pos ht]
  exact hb _

private theorem Sound.le_rebuilt_of_dir (n : Nat) (hd : dirs d) (hn : depth d = n)
    (hcut : n ≤ rebuildLevels) {bound : Nat}
    (hb : ∀ next, bound ≤ rebuildFrom m.disk (rebuildLevels - n) d next) :
    bound ≤ rebuilt m.disk := by
  -- The path from the root to the directory, one parent at a time.
  induction n generalizing d with
  | zero =>
    rcases h.parents d hd with rfl | ⟨p, i, hp, hl, ht, rfl⟩
    · exact hb _
    · have := (h.children p i hp hl ht).2
      omega
  | succ n ih =>
    rcases h.parents d hd with rfl | ⟨p, i, hp, hl, ht, rfl⟩
    · have := h.rootDepth
      omega
    · have hdep := (h.children p i hp hl ht).2
      apply ih hp (by omega) (by omega)
      intro next
      have hlev : rebuildLevels - n = rebuildLevels - (n + 1) + 1 := by omega
      rw [hlev]
      exact h.child_le_rebuildFrom _ hp hl ht hb next

/-- The rebuilt allocator is past every entry above the cut. -/
theorem Sound.entry_le_rebuilt (hd : dirs d) (hl : Live m.disk d i) (hcut : depth d < rebuildLevels) :
    (entryAt (m.disk d) i).dataSector + ownedCount (entryAt (m.disk d) i) ≤ rebuilt m.disk := by
  apply h.le_rebuilt_of_dir (depth d) hd rfl (Nat.le_of_lt hcut)
  intro next
  have hlev : rebuildLevels - depth d = rebuildLevels - depth d - 1 + 1 := by omega
  rw [hlev]
  exact h.entry_le_rebuildFrom _ hd hl next

/-- The rebuilt allocator lies between the first free sector and the allocator of the run. -/
theorem Sound.rebuilt_bounds :
    firstFreeSector ≤ rebuilt m.disk ∧ rebuilt m.disk ≤ m.nextFreeSector :=
  ⟨le_rebuildFrom _ _ _ _, h.rebuildFrom_le _ h.root h.low⟩

end

end NasuaOS.ClawFS
