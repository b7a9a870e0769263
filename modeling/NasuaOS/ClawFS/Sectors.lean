import NasuaOS.ClawFS.Runs

/-!
# Sectors that an operation gives to an entry

Which sectors an operation gives away follows from the state before it: the allocator, the slot that
its name is found in, and the number of sectors that the contents need. A sector that nobody owns is
owned after the operation exactly when it is one of these. `clawfs.cpp:385–500,779–870`.
-/

namespace NasuaOS.ClawFS

open Base Libc

variable {m : Machine} {dirs : Nat → Prop} {depth : Nat → Nat} {d i : Nat}

/-- Some entry of the tree owns a sector. -/
def Owns (disk : Disk) (s : Nat) : Prop :=
  ∃ p i e, treeEntry disk p i = some e ∧ s ∈ owned e

section

variable (h : Sound m dirs depth)

include h

/-- Every directory has a slot path. -/
theorem Sound.exists_dirAt (hd : dirs d) : ∃ p, dirAt m.disk p = some d := by
  -- Over the depth, from a directory to its parent.
  induction hn : depth d using Nat.strongRecOn generalizing d with
  | ind n ih =>
    rcases h.parents d hd with rfl | ⟨p, i, hp, hl, ht, rfl⟩
    · exact ⟨[], rfl⟩
    · obtain ⟨-, hdepth⟩ := h.children p i hp hl ht
      have hparent : Reached (childDir m.disk) clawfsRootSector p :=
        ih (depth p) (by omega) hp rfl
      exact hparent.edge ((childDir_eq_some_iff m.disk p i _).mpr ⟨hl, ht, rfl⟩)

/-- The owners are the slots of the directories. -/
theorem Sound.owns_iff (s : Nat) :
    Owns m.disk s ↔ ∃ d i, dirs d ∧ Live m.disk d i ∧ s ∈ owned (entryAt (m.disk d) i) := by
  constructor
  · rintro ⟨p, i, e, he, hs⟩
    obtain ⟨d, hd, hl, rfl⟩ := (treeEntry_eq_some_iff m.disk p i e).mp he
    exact ⟨d, i, (h.dirAt_dir hd).1, hl, hs⟩
  · rintro ⟨d, i, hd, hl, hs⟩
    obtain ⟨p, hp⟩ := h.exists_dirAt hd
    exact ⟨p, i, _, (treeEntry_eq_some_iff m.disk p i _).mpr ⟨d, hp, hl, rfl⟩, hs⟩

/-- The entries of the tree depend on its directories only. -/
theorem Sound.treeEntry_congr {disk : Disk} (hdirs : ∀ x, dirs x → disk x = m.disk x)
    (p : List Nat) (i : Nat) : treeEntry disk p i = treeEntry m.disk p i := by
  have hlive (d j : Nat) (hd : dirs d) : Live disk d j ↔ Live m.disk d j := by
    rw [Live, hdirs d hd, Live]
  have hdir : dirAt disk p = dirAt m.disk p := by
    apply walk_eq_of_reached
    rintro d j ⟨q, hq⟩
    have hd := (h.dirAt_dir hq).1
    rw [childDir, childDir, hdirs d hd]
    exact if_congr (and_congr_left' (hlive d j hd)) rfl rfl
  rw [treeEntry, treeEntry, hdir]
  cases hd : dirAt m.disk p with
  | none => rfl
  | some d =>
    have hdir := (h.dirAt_dir hd).1
    rw [Option.bind_some, Option.bind_some, hdirs d hdir]
    exact if_congr (hlive d i hdir) rfl rfl

/-- A sector that nobody owns has an owner after an operation exactly when the operation gives it
away. -/
theorem Sound.owns_run_iff (op : Op) (hv : op.Valid m.disk)
    (hroom : m.nextFreeSector + allocatedBy m (op.run m) < 2 ^ 32) {s : Nat} (hs : ¬ Owns m.disk s) :
    Owns (op.run m).disk s ↔ s ∈ op.sectors m := by
  have hold (d i : Nat) (hd : dirs d) (hl : Live m.disk d i) :
      s ∉ owned (entryAt (m.disk d) i) :=
    fun hmem => hs ((h.owns_iff s).mpr ⟨d, i, hd, hl, hmem⟩)
  cases h.effect op hv hroom with
  | same unchanged none =>
    rw [unchanged, none]
    exact iff_of_false hs (Finset.notMem_empty s)
  | put d i entry _ given _ _ =>
    rw [(h.put entry).owns_iff, ← given]
    constructor
    · rintro ⟨x, j, hx, hl, hmem⟩
      rcases entry.live_cases hx hl with ⟨rfl, rfl⟩ | ⟨hxo, hlo, hne⟩
      · exact hmem
      · rw [entry.entryAt_eq hxo hlo.1 hne] at hmem
        exact absurd hmem (hold x j hxo hlo)
    · intro hmem
      exact ⟨d, i, .inl entry.dir, ⟨entry.slot, entry.used⟩, hmem⟩
  | drop d i entry none =>
    rw [(h.drop entry).owns_iff, none]
    refine iff_of_false ?_ (Finset.notMem_empty s)
    rintro ⟨x, j, hx, hl, hmem⟩
    obtain ⟨hlo, hne⟩ := entry.live_cases hx.1 hl
    rw [entry.entryAt_eq hx.1 hlo.1 hne] at hmem
    exact hold x j hx.1 hlo hmem

end

/-- The most sectors that one operation takes: one for a new file, and those of its contents. -/
def largestRequest : Nat := 2 ^ 16 + 1

private theorem Mounted.createFileIn_next (h : Mounted m) (path name : Bytes)
    (hroom : m.nextFreeSector + 1 < 2 ^ 32) : ∃ extra, extra ≤ 1 ∧
      (clawfsCreateFileIn path name m).2.nextFreeSector = m.nextFreeSector + extra := by
  rw [clawfsCreateFileIn_created h]
  split
  · exact ⟨0, Nat.zero_le 1, rfl⟩
  · exact created_next path name clawfsFile hroom

private theorem Mounted.writeFile_next (h : Mounted m) (path data : Bytes)
    (hroom : m.nextFreeSector + 1 < 2 ^ 32) : ∃ extra, extra ≤ largestRequest ∧
      (clawfsWriteFile path data m).2.nextFreeSector = m.nextFreeSector + extra := by
  have hsame : ∃ extra, extra ≤ largestRequest ∧ m.nextFreeSector = m.nextFreeSector + extra :=
    ⟨0, Nat.zero_le _, rfl⟩
  rw [clawfsWriteFile_mounted m h]
  split
  · exact hsame
  next hlen =>
  have hle : data.length ≤ clawfsMaxFileSize := Nat.not_lt.mp hlen
  cases splitFilePath path with
  | none => exact hsame
  | some parts =>
    obtain ⟨parentPath, fileName⟩ := parts
    dsimp only
    split
    · exact hsame
    cases findEntry (m.disk (lookupPath m.disk parentPath)) fileName with
    | some e =>
      obtain ⟨extra, hextra, hnext⟩ := storeContents_next h.faultless h.initialized
        (lookupPath m.disk parentPath) (m.disk (lookupPath m.disk parentPath)) fileName e hle
      exact ⟨extra, Nat.le_succ_of_le hextra, hnext⟩
    | none =>
      obtain ⟨hfaults, hinit⟩ := clawfsCreateFileIn_keeps m h parentPath fileName
      obtain ⟨made, hmade, hmid⟩ := h.createFileIn_next parentPath fileName hroom
      generalize (clawfsCreateFileIn parentPath fileName m).2 = mid at *
      cases findEntry (mid.disk (lookupPath m.disk parentPath)) fileName with
      | none => exact ⟨made, Nat.le_trans hmade (by decide), hmid⟩
      | some e =>
        obtain ⟨extra, hextra, hnext⟩ := storeContents_next hfaults hinit
          (lookupPath m.disk parentPath) (mid.disk (lookupPath m.disk parentPath)) fileName e hle
        refine ⟨made + extra, ?_, ?_⟩
        · rw [largestRequest]
          omega
        · rw [hnext, hmid, Nat.add_assoc]

private theorem Mounted.run_next (h : Mounted m) (op : Op) (hroom : m.nextFreeSector + 1 < 2 ^ 32) :
    ∃ extra, extra ≤ largestRequest ∧ (op.run m).nextFreeSector = m.nextFreeSector + extra := by
  have hsame : ∃ extra, extra ≤ largestRequest ∧ m.nextFreeSector = m.nextFreeSector + extra :=
    ⟨0, Nat.zero_le _, rfl⟩
  cases op with
  | mkdir parentPath dirName =>
    obtain ⟨extra, hextra, hnext⟩ := created_next parentPath.val dirName.val clawfsDirectory hroom
    rw [Op.run, clawfsMkdir_created h]
    exact ⟨extra, Nat.le_trans hextra (by decide), hnext⟩
  | createFileIn path name =>
    obtain ⟨extra, hextra, hnext⟩ := h.createFileIn_next path.val name.val hroom
    exact ⟨extra, Nat.le_trans hextra (by decide), hnext⟩
  | writeFile path data => exact h.writeFile_next path.val data hroom
  | rm parentPath name type =>
    rw [Op.run, clawfsRm_mounted m h]
    split
    · exact hsame
    cases removalSlot (m.disk (lookupPath m.disk parentPath.val)) name.val type with
    | none => exact hsame
    | some i =>
      dsimp only
      split
      · exact hsame
      · exact hsame

/-- With the largest request to spare, the allocator does not wrap. -/
theorem Mounted.room (h : Mounted m) (op : Op)
    (hspare : m.nextFreeSector + largestRequest < 2 ^ 32) :
    m.nextFreeSector + allocatedBy m (op.run m) < 2 ^ 32 := by
  have hlarge : 1 ≤ largestRequest := by decide
  obtain ⟨extra, hextra, hnext⟩ := h.run_next op (by omega)
  rw [allocatedBy, hnext]
  omega

section Foreign

variable {s : Nat} (buffer : Sector)

private theorem Sound.dir_ne (h : Sound m dirs depth) (hs : ¬ Owns m.disk s)
    (hroot : s ≠ clawfsRootSector) (hd : dirs d) : d ≠ s := by
  rintro rfl
  rcases h.parents d hd with hr | ⟨p, i, hp, hl, ht, hsector⟩
  · exact hroot hr
  · apply hs
    rw [h.owns_iff]
    refine ⟨p, i, hp, hl, ?_⟩
    rw [owned, Finset.mem_Ico, hsector]
    exact ⟨le_rfl, Nat.lt_add_of_pos_right (ownedCount_pos _)⟩

/-- The tree stays sound. -/
theorem Sound.write_foreign (h : Sound m dirs depth) (hs : ¬ Owns m.disk s)
    (hroot : s ≠ clawfsRootSector) (hheader : s ≠ clawfsStartLba) :
    Sound { m with disk := writeDisk m.disk s buffer } dirs depth := by
  apply h.congr
  · apply h.mounted.rewrite m.nextFreeSector
    exact writeDisk_of_ne _ _ _ _ hheader.symm
  · intro d hd
    exact writeDisk_of_ne _ _ _ _ (h.dir_ne hs hroot hd)
  · exact le_rfl
  · exact h.high

/-- The entries of the tree stay. -/
theorem Sound.treeEntry_write_foreign (h : Sound m dirs depth) (hs : ¬ Owns m.disk s)
    (hroot : s ≠ clawfsRootSector) (p : List Nat) (i : Nat) :
    treeEntry (writeDisk m.disk s buffer) p i = treeEntry m.disk p i :=
  h.treeEntry_congr (fun _ hd => writeDisk_of_ne _ _ _ _ (h.dir_ne hs hroot hd)) p i

end Foreign

end NasuaOS.ClawFS
