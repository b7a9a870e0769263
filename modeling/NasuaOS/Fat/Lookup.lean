import NasuaOS.Fat.Entries

/-!
# Paths

The directories of a volume form a tree, and a path leads through it from entry to entry.
`resolve_path` follows every path that stays in the tree.
-/

namespace NasuaOS.Fat

open Base Libc List

variable {image : Store} {b : Bpb}

/-- Equality of names up to ASCII case. -/
def SameName (a c : Bytes) : Prop := a.map toLower = c.map toLower

instance (a c : Bytes) : Decidable (SameName a c) :=
  inferInstanceAs (Decidable (_ = _))

/-- The entry with a name; the first one if there are several. -/
def entryNamed (entries : List EntryInfo) (name : Bytes) : Option EntryInfo :=
  entries.find? fun info => decide (SameName info.name name)

/-- The names in a path: what stands between its slashes. -/
def pathNames (path : Bytes) : List Bytes := (path.splitOn slash).filter (· ≠ [])

/-- The root directory: a region of its own, or a chain on FAT32. -/
def Bpb.root (b : Bpb) : Directory := if b.type = .fat32 then ⟨false, b.rootCluster⟩ else ⟨true, 0⟩

/-- From a directory, the names lead to the entry; every name but the last is a directory's. -/
inductive LeadsTo (image : Store) (b : Bpb) : Directory → List Bytes → EntryInfo → Prop
  | entry {directory : Directory} {slots : List Nat} {name : Bytes} {info : EntryInfo}
      (hslots : SlotsOf image b directory slots) (hlen : name.length < fatMaxName)
      (hfind : entryNamed (entriesOf image slots LongName.none) name = some info) :
      LeadsTo image b directory [name] info
  | into {directory : Directory} {slots : List Nat} {name : Bytes} {sub info : EntryInfo}
      {rest : List Bytes}
      (hslots : SlotsOf image b directory slots) (hlen : name.length < fatMaxName)
      (hfind : entryNamed (entriesOf image slots LongName.none) name = some sub)
      (hsub : sub.directory = true) (hrest : LeadsTo image b ⟨false, sub.firstCluster⟩ rest info) :
      LeadsTo image b directory (name :: rest) info

/-- The first name of a path. -/
theorem pathNames_append {name rest : Bytes} (hne : name ≠ []) (hname : slash ∉ name)
    (hrest : rest = [] ∨ ∃ more, rest = slash :: more) :
    pathNames (name ++ rest) = name :: pathNames rest := by
  rcases hrest with rfl | ⟨more, rfl⟩
  · rw [append_nil, pathNames, splitOn_eq_singleton hname]
    simp [hne, pathNames]
  · rw [pathNames, splitOn_append_cons_self_of_not_mem hname]
    simp [hne, pathNames, splitOn_cons_eq_if_modifyHead]

private theorem pathNames_dropWhile (path : Bytes) :
    pathNames (path.dropWhile (· == slash)) = pathNames path := by
  induction path with
  | nil => rfl
  | cons c path ih =>
    rw [dropWhile_cons]
    split
    · next hslash =>
      rw [ih, pathNames, pathNames, splitOn_cons_eq_if_modifyHead, if_pos hslash]
      simp
    · rfl

/-- What is left after a name is empty or starts with a slash. -/
theorem dropWhile_ne_slash (path : Bytes) :
    path.dropWhile (· != slash) = [] ∨ ∃ more, path.dropWhile (· != slash) = slash :: more := by
  cases h : path.dropWhile (· != slash) with
  | nil => exact .inl rfl
  | cons c more =>
    have hhead := head?_dropWhile_not (· != slash) path
    rw [h] at hhead
    have hc : c = slash := by simpa using hhead
    exact .inr ⟨more, by rw [hc]⟩

private theorem takeWhile_component {cursor : Bytes} (hne : cursor.dropWhile (· == slash) ≠ []) :
    (cursor.dropWhile (· == slash)).takeWhile (· != slash) ≠ [] ∧
      slash ∉ (cursor.dropWhile (· == slash)).takeWhile (· != slash) := by
  have hstart := head?_dropWhile_not (· == slash) cursor
  constructor
  · cases hcomponent : cursor.dropWhile (· == slash) with
    | nil => exact absurd hcomponent hne
    | cons c more =>
      rw [hcomponent] at hstart
      have hc : (c != slash) = true := by simpa using hstart
      rw [takeWhile_cons_of_pos (p := (· != slash)) hc]
      exact cons_ne_nil _ _
  · intro hmem
    simpa using mem_takeWhile_imp hmem

private theorem componentsFrom_eq (fuel : Nat) {cursor : Bytes}
    (hfuel : cursor.length < fuel) : componentsFrom fuel cursor = pathNames cursor := by
  induction fuel generalizing cursor with
  | zero => omega
  | succ fuel ih =>
    rw [componentsFrom, ← pathNames_dropWhile cursor]
    have hle : (cursor.dropWhile (· == slash)).length ≤ cursor.length :=
      IsSuffix.length_le (dropWhile_suffix _)
    have hname := @takeWhile_component cursor
    generalize cursor.dropWhile (· == slash) = component at hle hname ⊢
    split
    · next hnil =>
      rw [hnil]
      rfl
    · next hne =>
      obtain ⟨htake, hnone⟩ := hname hne
      have hsplit : component.takeWhile (· != slash) ++ component.dropWhile (· != slash) =
          component := takeWhile_append_dropWhile
      have hlen := congrArg length hsplit
      have hpos := length_pos_iff.mpr htake
      rw [length_append] at hlen
      rw [ih (by omega), ← pathNames_append htake hnone (dropWhile_ne_slash component), hsplit]

private theorem componentsFrom_names (fuel : Nat) (cursor : Bytes) :
    ∀ name ∈ componentsFrom fuel cursor, name ≠ [] ∧ slash ∉ name ∧ name ⊆ cursor := by
  induction fuel generalizing cursor with
  | zero => simp [componentsFrom]
  | succ fuel ih =>
    intro name hmem
    rw [componentsFrom] at hmem
    have hsub : cursor.dropWhile (· == slash) ⊆ cursor := (dropWhile_suffix _).subset
    split at hmem
    · cases hmem
    · next hne =>
      rcases mem_cons.mp hmem with rfl | hmem
      · obtain ⟨hname, hslash⟩ := takeWhile_component hne
        exact ⟨hname, hslash, fun c hc => hsub (( takeWhile_prefix _).subset hc)⟩
      · obtain ⟨hname, hslash, hin⟩ := ih _ name hmem
        exact ⟨hname, hslash, fun c hc => hsub ((dropWhile_suffix _).subset (hin hc))⟩

/-- Components are not empty and hold no slash, only bytes of the path. -/
theorem components_names (path : Bytes) :
    ∀ name ∈ components path, name ≠ [] ∧ slash ∉ name ∧ name ⊆ path := componentsFrom_names _ _

/-- The components of a path are its names. -/
theorem components_eq (path : Bytes) : components path = pathNames path :=
  componentsFrom_eq _ (Nat.lt_succ_self _)

/-- Names are compared up to ASCII case. -/
theorem nameEquals_iff (a c : Bytes) : nameEquals a c = true ↔ SameName a c := by
  unfold SameName
  induction a generalizing c with
  | nil => cases c <;> simp [nameEquals]
  | cons x a ih =>
    cases c with
    | nil => simp [nameEquals]
    | cons y c => simp [nameEquals, ih]

private theorem foldEntries_search {name : Bytes} (hlen : name.length < fatMaxName)
    (entries : List EntryInfo) :
    foldEntries (searchCallback name) entries none = entryNamed entries name := by
  induction entries with
  | nil => rfl
  | cons info rest ih =>
    have htake : name.take (fatMaxName - 1) = name := take_of_length_le (by omega)
    rw [foldEntries, searchCallback, htake, entryNamed, find?_cons]
    by_cases hsame : SameName info.name name
    · rw [if_pos ((nameEquals_iff _ _).mpr hsame), decide_eq_true hsame]
    · rw [if_neg (fun h => hsame ((nameEquals_iff _ _).mp h)), decide_eq_false hsame]
      exact ih

private theorem rootDirectory_eq : rootDirectory (b.volume image) = b.root := by
  rw [rootDirectory, Bpb.root]
  change (⟨decide (b.type ≠ .fat32), if b.type = .fat32 then b.rootCluster else 0⟩ : Directory) = _
  split
  · next ht => rw [decide_eq_false (not_not_intro ht)]
  · next ht => rw [decide_eq_true ht]

private theorem resolveComponents_eq (h : WellFormed image b) {fuel : Nat}
    (hfuel : b.clusterCount < fuel) {directory : Directory} {names : List Bytes} {info : EntryInfo}
    (hleads : LeadsTo image b directory names info) (start : EntryInfo) :
    ∃ last, resolveComponents fuel (b.volume image) names start directory =
      .ok (some (info, last)) := by
  induction hleads generalizing start with
  | entry hslots hlen hfind =>
    rw [resolveComponents, h.iterateDirectory_eq _ hslots hfuel, foldEntries_search hlen, hfind]
    exact ⟨_, rfl⟩
  | into hslots hlen hfind hsub _ ih =>
    rw [resolveComponents, h.iterateDirectory_eq _ hslots hfuel, foldEntries_search hlen, hfind]
    change ∃ last, (if _ ∧ _ then _ else _) = _
    rw [if_neg (by rw [hsub]; simp), if_pos hsub]
    exact ih _

/-- The reader finds the entry that a path leads to. -/
theorem resolvePath_eq (h : WellFormed image b) {fuel : Nat} (hfuel : b.clusterCount < fuel)
    {path : Bytes} {info : EntryInfo} (hleads : LeadsTo image b b.root (pathNames path) info) :
    ∃ last, resolvePath fuel (b.volume image) path = .ok (some (info, last)) := by
  rw [resolvePath, components_eq, rootDirectory_eq]
  exact resolveComponents_eq h hfuel hleads _

end NasuaOS.Fat
