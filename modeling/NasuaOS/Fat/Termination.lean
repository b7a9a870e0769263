import NasuaOS.Fat.Bounds

/-!
# When directory walks end

`iterate_directory` follows a chain of clusters until it meets an end mark, a sector outside the
image or an unused slot; it does not count the clusters (`fat.cpp:75–140,205–324`). A chain without
any of these keeps it going forever. What the source does after a read outside the image is
undefined, so a walk counts as ended only when it got to its end inside the image.
-/

namespace NasuaOS.Fat

open Base Libc List

variable {v : Volume} {fuel : Nat}

/-- A chain of clusters that leads to an end, with the long names collected on the way. -/
inductive ChainEnds (v : Volume) : Nat → LongName → Prop
  | mark {cluster : Nat} {long : LongName} (hlast : isLastCluster v cluster = true) :
      ChainEnds v cluster long
  /-- An unused slot, or a sector outside the image. -/
  | slot {cluster : Nat} {long : LongName} (hlast : isLastCluster v cluster = false)
      (hpass : passCluster v cluster long = .ok ((), none)) : ChainEnds v cluster long
  | next {cluster next : Nat} {long long' : LongName} (hlast : isLastCluster v cluster = false)
      (hpass : passCluster v cluster long = .ok ((), some long'))
      (hnext : nextCluster v cluster = .ok next) (hrest : ChainEnds v next long') :
      ChainEnds v cluster long

/-- The walk over a directory comes to an end inside the image. -/
def WalkEnds (v : Volume) (directory : Directory) : Prop :=
  if directory.fixedRoot = true then ∃ r, passRoot v = .ok r
  else ChainEnds v directory.cluster LongName.none

private theorem ChainEnds.of_visit {cluster : Nat} {long : LongName}
    (h : visitClusters v goOn fuel cluster long () = .ok ()) : ChainEnds v cluster long := by
  induction fuel generalizing cluster long with
  | zero => cases h
  | succ fuel ih =>
    rw [visitClusters] at h
    split at h
    · next hlast => exact .mark hlast
    · next hlast =>
      have hlast : isLastCluster v cluster = false := by simpa using hlast
      obtain ⟨⟨_, _ | long'⟩, hpass, h⟩ := bind_eq_ok.mp h
      · exact .slot hlast hpass
      · obtain ⟨next, hnext, h⟩ := bind_eq_ok.mp h
        exact .next hlast hpass hnext (ih h)

private theorem ChainEnds.visit {cluster : Nat} {long : LongName} (h : ChainEnds v cluster long) :
    ∃ fuel, visitClusters v goOn fuel cluster long () = .ok () := by
  induction h with
  | mark hlast =>
    refine ⟨1, ?_⟩
    rw [visitClusters, if_pos hlast]
  | slot hlast hpass =>
    refine ⟨1, ?_⟩
    rw [visitClusters, if_neg (by simp [hlast])]
    exact bind_eq_ok.mpr ⟨_, hpass, rfl⟩
  | next hlast hpass hnext _ ih =>
    obtain ⟨fuel, h⟩ := ih
    refine ⟨fuel + 1, ?_⟩
    rw [visitClusters, if_neg (by simp [hlast])]
    exact bind_eq_ok.mpr ⟨_, hpass, bind_eq_ok.mpr ⟨_, hnext, h⟩⟩

private theorem walkEnds_iff (v : Volume) (directory : Directory) :
    WalkEnds v directory ↔ Returns fun fuel => (walkDirectory fuel v directory).run goOn () := by
  simp only [← iterateDirectory_run]
  unfold WalkEnds iterateDirectory
  split
  · constructor
    · rintro ⟨r, hr⟩
      exact ⟨0, r.1, congrArg (Prod.fst <$> ·) hr⟩
    · rintro ⟨_, a, h⟩
      obtain ⟨r, hr, -⟩ := bind_eq_ok.mp (map_eq_pure_bind Prod.fst (passRoot v) ▸ h)
      exact ⟨r, hr⟩
  · constructor
    · intro h
      obtain ⟨fuel, hvisit⟩ := h.visit
      exact ⟨fuel, (), hvisit⟩
    · rintro ⟨fuel, _, hvisit⟩
      exact .of_visit hvisit

private theorem WalkEnds.run {directory : Directory} (h : WalkEnds v directory) {σ : Type}
    (callback : Callback σ) (data : σ) :
    Returns fun fuel => (walkDirectory fuel v directory).run callback data := by
  obtain ⟨fuel, a, h⟩ := (walkEnds_iff v directory).mp h
  cases hrun : (walkDirectory fuel v directory).run callback data with
  | ok b => exact ⟨fuel, b, hrun⟩
  | error stop =>
    dsimp only at h
    rw [run_goOn hrun] at h
    cases h

/-- On a mounted image every lookup and every listing comes to an end inside the image exactly when
the walk over each directory that a path leads to does. -/
theorem walks_end_iff (image : Store) : ∀ v ∈ fatMount image,
    (∀ path, Returns (fatStat · v path) ∧
      ∀ maxEntries, Returns (fatListDirectory · v path maxEntries)) ↔
    ∀ path info directory, Found v path info directory → info.directory = true →
      WalkEnds v directory := by
  intro v _
  constructor
  · intro h path info directory hfound hinfo
    obtain ⟨least, habsent⟩ := hfound.stat_absent hinfo
    obtain ⟨fuel, a, hstat⟩ := (h (below path absentName)).1
    have hmore := (fueled_fatStat _).ok hstat (Nat.le_max_left fuel least)
    refine (walkEnds_iff v directory).mpr ⟨max fuel least, ?_⟩
    cases hrun : (walkDirectory (max fuel least) v directory).run goOn () with
    | ok b => exact ⟨b, hrun⟩
    | error stop =>
      rw [habsent _ (Nat.le_max_right _ _) stop hrun] at hmore
      cases hmore
  · intro h
    exact keeps_calls sequential_returns fun hfound hinfo => (h _ _ _ hfound hinfo).run

/-- On `clusterInside`, whose root directory holds one file, everything ends. -/
theorem walks_end_clusterInside : volumeInside ∈ fatMount clusterInside ∧
    ∀ path, Returns (fatStat · volumeInside path) ∧
      ∀ maxEntries, Returns (fatListDirectory · volumeInside path maxEntries) := by
  refine ⟨Option.get_mem _, (walks_end_iff clusterInside _ (Option.get_mem _)).mpr ?_⟩
  intro path info directory hfound hinfo
  rcases found_volumeInside hfound with ⟨-, hroot⟩ | rfl
  · rw [WalkEnds, if_pos hroot]
    exact ⟨_, rfl⟩
  · cases hinfo

/-- A FAT12 volume: the directory `D` is one cluster of deleted slots that follows itself. -/
def cyclic : Store :=
  imageOf 2048 ([(12, 2), (13, 1), (14, 1), (16, 1), (17, 16), (19, 4), (22, 1), (515, 2)] ++
    slotOfDirectory 1024 [68] 2 ++ (range 16).map fun k => (1536 + 32 * k, (229 : UInt8)))

/-- The volume of `cyclic`. -/
def cyclicVolume : Volume := (fatMount cyclic).get (by decide)

/-- Looking for `/D/A` on `cyclic` never ends. -/
theorem cyclic_walk_never_ends : cyclicVolume ∈ fatMount cyclic ∧
    ∀ fuel, fatStat fuel cyclicVolume [slash, 68, slash, 65] = .error .outOfFuel := by
  have hwalk (fuel : Nat) : visitClusters cyclicVolume (searchCallback [65]) fuel 2 LongName.none
      none = .error .outOfFuel := by
    induction fuel with
    | zero => rfl
    | succ fuel ih => exact ih
  have hroot (fuel : Nat) : iterateDirectory fuel cyclicVolume (rootDirectory cyclicVolume)
      (searchCallback [68]) none = .ok (some ⟨[100], 0, 2, true⟩) := rfl
  refine ⟨Option.get_mem _, fun fuel => ?_⟩
  rw [fatStat, resolvePath, show components [slash, 68, slash, 65] = [[68], [65]] by decide,
    resolveComponents_cons (hroot fuel) (.inr rfl), resolveComponents]
  change (visitClusters cyclicVolume (searchCallback [65]) fuel 2 LongName.none none >>= _) >>=
    _ = _
  rw [hwalk]
  rfl

end NasuaOS.Fat
