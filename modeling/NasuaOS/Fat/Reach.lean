import NasuaOS.Base.Fuel
import NasuaOS.Fat.Walks

/-!
# What paths lead to

`fat_stat` and `fat_list_directory` do one directory walk after another. What holds of the walks
over the directories that a path leads to holds of the calls, and a lookup of a name that no
directory has goes all the way along the last of these walks.
-/

namespace NasuaOS.Fat

open Base Libc List

variable {σ : Type} {v : Volume} {fuel : Nat}

private theorem fueled_visitClusters (callback : Callback σ) (cluster : Nat)
    (long : LongName) (data : σ) :
    Fueled fun fuel => visitClusters v callback fuel cluster long data := by
  intro fuel
  induction fuel generalizing cluster long data with
  | zero => exact fun _ _ h => absurd rfl h
  | succ fuel ih =>
    intro fuel' hle h
    obtain ⟨more, rfl⟩ := Nat.exists_eq_add_of_le' hle
    dsimp only at h ⊢
    rw [visitClusters] at h ⊢
    rw [← Nat.add_assoc, visitClusters]
    split
    · rfl
    · next hlast =>
      rw [if_neg hlast] at h
      cases hvisit : visitSectors v callback
          (sectorsFrom (clusterFirstSector v cluster) v.sectorsPerCluster) long data with
      | error stop => rfl
      | ok r =>
        rw [hvisit] at h
        rcases r with ⟨data, _ | long⟩
        · rfl
        · cases hnext : nextCluster v cluster with
          | error stop => rfl
          | ok next =>
            rw [hnext] at h
            exact ih next long data _ (Nat.le_add_left _ _) h

private theorem fueled_iterateDirectory (directory : Directory) (callback : Callback σ) (data : σ) :
    Fueled fun fuel => iterateDirectory fuel v directory callback data := by
  unfold iterateDirectory
  split
  · exact Fueled.const _
  · exact fueled_visitClusters callback _ _ _

private theorem fueled_resolveComponents (names : List Bytes) (info : EntryInfo)
    (current : Directory) : Fueled fun fuel => resolveComponents fuel v names info current := by
  induction names generalizing info current with
  | nil => exact Fueled.const _
  | cons name rest ih =>
    apply (fueled_iterateDirectory current (searchCallback name) none).bind
    intro found
    cases found with
    | none => exact Fueled.const _
    | some sub =>
      dsimp only
      split
      · exact Fueled.const _
      · exact ih _ _

private theorem fueled_resolvePath (path : Bytes) :
    Fueled fun fuel => resolvePath fuel v path :=
  fueled_resolveComponents _ _ _

/-- A path leads to an entry; for a directory also to where its slots are. -/
def Found (v : Volume) (path : Bytes) (info : EntryInfo) (directory : Directory) : Prop :=
  ∃ fuel, resolvePath fuel v path = .ok (some (info, directory))

/-- A callback that never stops. -/
def goOn (_ : EntryInfo) (_ : Unit) : Unit × Bool := ((), true)

/-- A walk over the slots of a cluster that no entry stops: the long name to go on with, or `none`
after an unused slot or a sector outside the image. -/
def passCluster (v : Volume) (cluster : Nat) (long : LongName) :
    Reading (Unit × Option LongName) :=
  visitSectors v goOn (sectorsFrom (clusterFirstSector v cluster) v.sectorsPerCluster) long ()

/-- A walk over the slots of the fixed root directory that no entry stops. -/
def passRoot (v : Volume) : Reading (Unit × Option LongName) :=
  visitSectors v goOn (sectorsFrom v.rootSector v.rootSectors) LongName.none ()

/-- A callback that is stopped by an error is stopped where one that never stops is. -/
theorem run_goOn {callback : Callback σ} {w : Walk} {data : σ} {stop : Stop}
    (h : w.run callback data = .error stop) : w.run goOn () = .error stop := by
  induction w generalizing data with
  | ended => cases h
  | stopped stop =>
    rw [Walk.run] at h ⊢
    exact congrArg Except.error (Except.error.inj h)
  | meets info rest ih =>
    rw [Walk.run] at h
    split at h
    · cases h
    · exact ih h

/-! ### A name that no directory has -/

/-- Thirteen bytes that are not ASCII: too many for a short name, and not in a long one. -/
def absentName : Bytes := replicate 13 128

private theorem toLower_ne (c : UInt8) (h : c < 128) : toLower c ≠ toLower 128 := by
  intro heq
  rw [show toLower 128 = 128 by decide, toLower] at heq
  split at heq
  · next hupper =>
    have hle := UInt8.le_iff_toNat_le.mp hupper.2
    have hnat := congrArg UInt8.toNat heq
    rw [UInt8.toNat_add] at hnat
    change (c.toNat + 32) % 256 = 128 at hnat
    change c.toNat ≤ 90 at hle
    omega
  · rw [heq] at h
    exact absurd h (by decide)

private theorem FitsName.ne_absent {name : Bytes} (h : FitsName name) :
    ¬nameEquals name (absentName.take (fatMaxName - 1)) = true := by
  rw [nameEquals_iff]
  intro hsame
  rcases h with h | ⟨-, h⟩
  · have hlen := congrArg length hsame
    rw [length_map, length_map] at hlen
    rw [hlen] at h
    exact absurd h (by decide)
  · cases name with
    | nil => cases hsame
    | cons c rest => exact toLower_ne c (h c mem_cons_self) (cons.inj hsame).1

private theorem run_absent {w : Walk} (hw : w.Fits) {stop : Stop}
    (h : w.run goOn () = .error stop) : w.run (searchCallback absentName) none = .error stop := by
  induction w with
  | ended => cases h
  | stopped stop =>
    rw [Walk.run] at h ⊢
    exact congrArg Except.error (Except.error.inj h)
  | meets info rest ih =>
    rw [Walk.run, searchCallback, if_neg hw.1.ne_absent]
    exact ih hw.2 h

variable {path : Bytes} {info : EntryInfo} {directory : Directory}

/-- From some fuel on, a lookup of the name in a directory stops where the walk over it does. -/
theorem Found.stat_absent (h : Found v path info directory) (hinfo : info.directory = true) :
    ∃ least, ∀ fuel, least ≤ fuel → ∀ stop,
      (walkDirectory fuel v directory).run goOn () = .error stop →
        fatStat fuel v (below path absentName) = .error stop := by
  obtain ⟨least, hpath⟩ := h
  refine ⟨least, fun fuel hle stop hstop => ?_⟩
  have hname : components absentName = [absentName] := components_name (by decide) (by decide)
  have hmore := (fueled_resolvePath path).ok hpath hle
  rw [fatStat, resolvePath_below hmore hinfo (by rw [hname]; simp), hname, resolveComponents,
    iterateDirectory_run, run_absent (walkDirectory_fits _ _ _) hstop]
  rfl

/-- More fuel does not change a walk that does not run out of it. -/
theorem fueled_walk (directory : Directory) :
    Fueled fun fuel => (walkDirectory fuel v directory).run goOn () := by
  have h := fueled_iterateDirectory (v := v) directory goOn ()
  simp only [iterateDirectory_run] at h
  exact h

/-- More fuel does not change a lookup that does not run out of it. -/
theorem fueled_fatStat (path : Bytes) : Fueled (fatStat · v path) :=
  (fueled_resolvePath _).bind fun _ => Fueled.const _

/-! ### From walks to calls -/

section

variable {P : (α : Type) → (Nat → Reading α) → Prop} (hP : Sequential P)
  (hall : ∀ {path info directory}, Found v path info directory → info.directory = true →
    ∀ {σ : Type} (callback : Callback σ) (data : σ),
      P σ fun fuel => (walkDirectory fuel v directory).run callback data)

include hP hall

private theorem keeps_resolveComponents {names : List Bytes}
    (hnames : ∀ name ∈ names, name ≠ [] ∧ slash ∉ name) {current : Directory}
    (hpath : Found v path info current) (hinfo : names ≠ [] → info.directory = true) :
    P _ fun fuel => resolveComponents fuel v names info current := by
  induction names generalizing path info current with
  | nil => exact hP.ok _
  | cons name rest ih =>
    have hinfo := hinfo (cons_ne_nil _ _)
    obtain ⟨hne, hslash⟩ := hnames name mem_cons_self
    have hname := components_name hne hslash
    have hwalk := hall hpath hinfo (searchCallback name) none
    simp only [← iterateDirectory_run] at hwalk
    apply hP.bind (fueled_iterateDirectory _ _ _) _ hwalk
    · intro fuel' found hfound
      cases found with
      | none => exact hP.ok _
      | some sub =>
        dsimp only
        split
        · exact hP.ok _
        · next hgo =>
          obtain ⟨fuel, hpath⟩ := hpath
          have hmore := (fueled_resolvePath path).ok hpath (Nat.le_max_left fuel fuel')
          have hsearch := (fueled_iterateDirectory _ _ _).ok hfound (Nat.le_max_right fuel fuel')
          have hnext := resolvePath_below hmore hinfo (by rw [hname]; exact cons_ne_nil _ _)
          rw [hname, resolveComponents_cons hsearch (.inl rfl)] at hnext
          exact ih (fun other hmem => hnames other (mem_cons_of_mem _ hmem)) ⟨_, hnext⟩
            fun hrest => by simpa [hrest] using hgo
    · intro found
      cases found with
      | none => exact Fueled.const _
      | some sub =>
        dsimp only
        split
        · exact Fueled.const _
        · exact fueled_resolveComponents _ _ _

/-- Looking up a path. -/
theorem keeps_resolvePath (path : Bytes) : P _ (resolvePath · v path) :=
  keeps_resolveComponents hP hall
    (fun name hmem => (components_names path name hmem).imp_right And.left)
    (⟨0, rfl⟩ : Found v [] _ _) fun _ => rfl

/-- `fat_stat` and `fat_list_directory`. -/
theorem keeps_calls (path : Bytes) : P _ (fatStat · v path) ∧
    ∀ maxEntries, P _ (fatListDirectory · v path maxEntries) := by
  have hresolve := keeps_resolvePath hP hall path
  refine ⟨hP.bind (fueled_resolvePath _) (fun _ => Fueled.const _) hresolve
    fun _ _ _ => hP.ok _, fun maxEntries => ?_⟩
  unfold fatListDirectory
  split
  · exact hP.ok _
  · apply hP.bind (fueled_resolvePath _) _ hresolve
    · rintro fuel (_ | ⟨info, directory⟩) hfound
      · exact hP.ok _
      · dsimp only
        split
        · exact hP.ok _
        · next hinfo =>
          simp only [iterateDirectory_run]
          exact hall ⟨fuel, hfound⟩ (by simpa using hinfo) _ _
    · rintro (_ | ⟨info, directory⟩)
      · exact Fueled.const _
      · dsimp only
        split
        · exact Fueled.const _
        · exact fueled_iterateDirectory _ _ _

end

end NasuaOS.Fat
