import NasuaOS.ClawFS.Format

/-!
# Sector ownership over whole runs

Every state of a run is sound, by induction on the run. The entries of its tree then own
pairwise disjoint ranges of sectors below the allocator.
-/

namespace NasuaOS.ClawFS

open Base Libc

variable {m : Machine} {dirs : Nat → Prop} {depth : Nat → Nat}

/-- In a run the allocator is the count of allocated sectors, the tree is sound, and no entry
lies deeper than the operations that made the tree could reach. -/
theorem ReachableBy.sound {ok : Op → Prop} {total : Nat} (h : ReachableBy ok m total)
    (ht : total < 2 ^ 32) : m.nextFreeSector = total ∧ ∃ dirs depth, Sound m dirs depth ∧
      ((∀ op, ok op → op.level < rebuildLevels) → Bounded m dirs depth rebuildLevels) := by
  induction h with
  | format m faultless =>
    obtain ⟨dirs, depth, hs, hb, -⟩ := sound_clawfsFormat faultless
    exact ⟨rfl, dirs, depth, hs, fun _ => hb⟩
  | @step m total op before valid meets ih =>
    obtain ⟨hn, dirs, depth, hs, hb⟩ := ih (by omega)
    have hroom : m.nextFreeSector + allocatedBy m (op.run m) < 2 ^ 32 := by omega
    obtain ⟨dirs', depth', hs', hb'⟩ := hs.after (hs.effect op valid hroom)
    refine ⟨?_, dirs', depth', hs', ?_⟩
    · have hlow := hs.high
      have hhigh := hs'.high
      rw [allocatedBy] at hroom ⊢
      omega
    · intro hlevel
      exact hb' rebuildLevels (hlevel op meets) (hb hlevel)

/-- A child directory of the tree is one level down. -/
theorem Sound.childDir_dir (h : Sound m dirs depth) {d i c : Nat} (hd : dirs d)
    (hc : childDir m.disk d i = some c) : dirs c ∧ depth c = depth d + 1 := by
  obtain ⟨hl, ht, rfl⟩ := (childDir_eq_some_iff m.disk d i c).mp hc
  exact h.children d i hd hl ht

/-- The directory at a slot path belongs to the tree and lies as deep as the path is long. -/
theorem Sound.dirAt_dir (h : Sound m dirs depth) {p : List Nat} {d : Nat}
    (hp : dirAt m.disk p = some d) : dirs d ∧ depth d = p.length := by
  induction p using List.reverseRecOn generalizing d with
  | nil =>
    cases hp
    exact ⟨h.root, h.rootDepth⟩
  | append_singleton p i ih =>
    obtain ⟨c, hc, hd⟩ := walk_concat hp
    obtain ⟨hcd, hcdep⟩ := ih hc
    obtain ⟨hdd, hddep⟩ := h.childDir_dir hcd hd
    refine ⟨hdd, ?_⟩
    rw [hddep, hcdep, List.length_append]
    rfl

private theorem Sound.dirAt_injective (h : Sound m dirs depth) {p q : List Nat} {d : Nat}
    (hp : dirAt m.disk p = some d) (hq : dirAt m.disk q = some d) : p = q := by
  apply walk_injective (childDir m.disk) clawfsRootSector h.root _ _ _ p q d hp hq
  · intro a i b ha hb
    exact (h.childDir_dir ha hb).1
  · intro a i ha hr
    have hdep := (h.childDir_dir ha hr).2
    rw [h.rootDepth] at hdep
    omega
  · intro a i b j c ha hb hac hbc
    obtain ⟨hla, hta, hsa⟩ := (childDir_eq_some_iff m.disk a i c).mp hac
    obtain ⟨hlb, htb, hsb⟩ := (childDir_eq_some_iff m.disk b j c).mp hbc
    -- Two slots with one sector would not be apart.
    by_contra hne
    have hpair : (a, i) ≠ (b, j) := by
      intro heq
      cases heq
      exact hne ⟨rfl, rfl⟩
    have hca := ownedCount_directory hta
    have hcb := ownedCount_directory htb
    rcases h.apart a i b j ha hla hb hlb hpair with hab | hab
    · omega
    · omega

/-- Header and root are nobody's, entries own disjoint sectors, and all lie below the allocator:
in every state of every run, over all pairs of distinct slots of the tree. -/
theorem owned_sectors_disjoint {total : Nat} (h : Reachable m total) (ht : total < 2 ^ 32) :
    (∀ p i e q j f, treeEntry m.disk p i = some e → treeEntry m.disk q j = some f →
      (p, i) ≠ (q, j) → Disjoint (owned e) (owned f)) ∧
    (∀ p i e, treeEntry m.disk p i = some e →
      clawfsStartLba ∉ owned e ∧ clawfsRootSector ∉ owned e ∧
        ∀ s ∈ owned e, s < m.nextFreeSector) ∧
    clawfsStartLba ≠ clawfsRootSector ∧
    clawfsStartLba < m.nextFreeSector ∧ clawfsRootSector < m.nextFreeSector := by
  obtain ⟨-, dirs, depth, hs, -⟩ := h.sound ht
  refine ⟨?_, ?_, by decide, hs.header_lt_next, (hs.dir_bounds hs.root).2⟩
  · intro p i e q j f he hf hne
    obtain ⟨d, hd, hl, rfl⟩ := (treeEntry_eq_some_iff m.disk p i e).mp he
    obtain ⟨x, hx, hlx, rfl⟩ := (treeEntry_eq_some_iff m.disk q j f).mp hf
    have hpair : (d, i) ≠ (x, j) := by
      intro heq
      cases heq
      exact hne (by rw [hs.dirAt_injective hd hx])
    exact (hs.apart d i x j (hs.dirAt_dir hd).1 hl (hs.dirAt_dir hx).1 hlx hpair).disjoint
  · intro p i e he
    obtain ⟨d, hd, hl, rfl⟩ := (treeEntry_eq_some_iff m.disk p i e).mp he
    have hdir := (hs.dirAt_dir hd).1
    refine ⟨?_, ?_, ?_⟩
    · intro ho
      exact absurd (hs.owned_bounds hdir hl ho).1 (by decide)
    · intro ho
      exact absurd (hs.owned_bounds hdir hl ho).1 (by decide)
    · intro s ho
      exact (hs.owned_bounds hdir hl ho).2

/-- A disk of zeros before the kernel has used it. -/
def blank : Machine := ⟨fun _ => Buffer.zero, 0, false, noFaults⟩

/-- A regular file that formatting makes. -/
def cpuinfoPath : CString :=
  cstring (ascii ['/', 'p', 'r', 'o', 'c', '/', 'c', 'p', 'u', 'i', 'n', 'f', 'o'])

/-- Two bytes for that file are a valid write on a fresh disk, and it succeeds. -/
theorem cpuinfo_written :
    (clawfsWriteFile cpuinfoPath.val [7, 0] (clawfsFormat blank).2).1 = true ∧
      (Op.writeFile cpuinfoPath [7, 0]).Valid (clawfsFormat blank).2.disk ∧
      (clawfsFormat blank).2.nextFreeSector + allocatedBy (clawfsFormat blank).2
        (clawfsWriteFile cpuinfoPath.val [7, 0] (clawfsFormat blank).2).2 < 2 ^ 32 ∧
      fileEntry (clawfsWriteFile cpuinfoPath.val [7, 0] (clawfsFormat blank).2).2.disk
        cpuinfoPath.val = some ⟨clawfsFile, 127, 2⟩ := by
  decide +kernel

/-- On a freshly formatted blank disk, `/bin` and `/home/user` own different sectors. -/
theorem owned_sectors_disjoint_blank :
    (clawfsFormat blank).2.nextFreeSector < 2 ^ 32 ∧
      treeEntry (clawfsFormat blank).2.disk [] 0 = some ⟨clawfsDirectory, 102, 0⟩ ∧
      treeEntry (clawfsFormat blank).2.disk [4] 0 = some ⟨clawfsDirectory, 112, 0⟩ ∧
      Disjoint (owned ⟨clawfsDirectory, 102, 0⟩) (owned ⟨clawfsDirectory, 112, 0⟩) := by
  have hroom := nextFreeSector_clawfsFormat_lt (m := blank) rfl
  obtain ⟨hbin, huser⟩ :
      treeEntry (clawfsFormat blank).2.disk [] 0 = some ⟨clawfsDirectory, 102, 0⟩ ∧
      treeEntry (clawfsFormat blank).2.disk [4] 0 = some ⟨clawfsDirectory, 112, 0⟩ := by
    decide +kernel
  refine ⟨hroom, hbin, huser, ?_⟩
  exact (owned_sectors_disjoint (.format blank rfl) hroom).1 [] 0 _ [4] 0 _ hbin huser (by decide)

end NasuaOS.ClawFS
