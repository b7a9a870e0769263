import NasuaOS.Fat.Lookup

/-!
# Walks over any image

`iterate_directory`, `resolve_path`, `fat_stat` and `fat_list_directory` (`fat.cpp:205–457,695–739`)
on images of any contents. What a walk meets does not depend on its callback: a walk is read off the
image first, and a callback then goes along it until it has enough.
-/

namespace NasuaOS.Fat

open Base Libc List

/-- What a directory walk meets as long as its callback goes on. -/
inductive Walk
  | ended
  | stopped (stop : Stop)
  | meets (info : EntryInfo) (rest : Walk)

variable {σ : Type}

/-- A callback goes along a walk. -/
def Walk.run (callback : Callback σ) : Walk → σ → Reading σ
  | .ended, data => .ok data
  | .stopped stop, _ => .error stop
  | .meets info rest, data =>
    match callback info data with
    | (data, false) => .ok data
    | (data, true) => rest.run callback data

/-- The walk over slots, and where it goes on after them. -/
def walkSlots (image : Store) : List Nat → LongName → (LongName → Walk) → Walk
  | [], long, next => next long
  | entry :: rest, long, next =>
    match readSlot image entry long with
    | .error stop => .stopped stop
    | .ok .last => .ended
    | .ok (.skip long) => walkSlots image rest long next
    | .ok (.entry info) =>
      .meets info (walkSlots image rest { long with hasLongName := false } next)

/-- The walk over sectors, and where it goes on after them. -/
def walkSectors (v : Volume) : List Nat → LongName → (LongName → Walk) → Walk
  | [], long, next => next long
  | sector :: rest, long, next =>
    match sectorPointer v sector with
    | none => .ended
    | some offset =>
      walkSlots v.image (slotOffsets v offset) long fun long => walkSectors v rest long next

/-- The walk along a chain. -/
def walkClusters (v : Volume) : Nat → Nat → LongName → Walk
  | 0, _, _ => .stopped .outOfFuel
  | fuel + 1, cluster, long =>
    if isLastCluster v cluster = true then .ended
    else
      walkSectors v (sectorsFrom (clusterFirstSector v cluster) v.sectorsPerCluster) long fun long =>
        match nextCluster v cluster with
        | .error stop => .stopped stop
        | .ok next => walkClusters v fuel next long

/-- The walk over a directory. -/
def walkDirectory (fuel : Nat) (v : Volume) (directory : Directory) : Walk :=
  if directory.fixedRoot = true then
    walkSectors v (sectorsFrom v.rootSector v.rootSectors) LongName.none fun _ => .ended
  else walkClusters v fuel directory.cluster LongName.none

section Run

variable (callback : Callback σ)

private theorem run_walkSlots (image : Store) (slots : List Nat) (long : LongName)
    (next : LongName → Walk) (data : σ) :
    (walkSlots image slots long next).run callback data =
      visitSlots image callback slots long data >>= fun r =>
        match r with
        | (data, none) => .ok data
        | (data, some long) => (next long).run callback data := by
  induction slots generalizing long data with
  | nil => rfl
  | cons entry rest ih =>
    rw [walkSlots, visitSlots]
    cases readSlot image entry long with
    | error stop => rfl
    | ok content =>
      cases content with
      | last => rfl
      | skip long => exact ih long data
      | entry info =>
        rw [Walk.run]
        change _ = (match callback info data with | (_, false) => _ | (_, true) => _) >>= _
        split
        · rfl
        · exact ih _ _

private theorem run_walkSectors (v : Volume) (sectors : List Nat) (long : LongName)
    (next : LongName → Walk) (data : σ) :
    (walkSectors v sectors long next).run callback data =
      visitSectors v callback sectors long data >>= fun r =>
        match r with
        | (data, none) => .ok data
        | (data, some long) => (next long).run callback data := by
  induction sectors generalizing long data with
  | nil => rfl
  | cons sector rest ih =>
    rw [walkSectors, visitSectors]
    cases sectorPointer v sector with
    | none => rfl
    | some offset =>
      dsimp only
      rw [run_walkSlots]
      cases visitSlots v.image callback (slotOffsets v offset) long data with
      | error stop => rfl
      | ok r =>
        rcases r with ⟨data, _ | long⟩
        · rfl
        · exact ih long data

private theorem run_walkClusters (v : Volume) (fuel cluster : Nat) (long : LongName) (data : σ) :
    (walkClusters v fuel cluster long).run callback data =
      visitClusters v callback fuel cluster long data := by
  induction fuel generalizing cluster long data with
  | zero => rfl
  | succ fuel ih =>
    rw [walkClusters, visitClusters]
    split
    · rfl
    · rw [run_walkSectors]
      congr 1
      funext r
      rcases r with ⟨data, _ | long⟩
      · rfl
      · cases nextCluster v cluster with
        | error stop => rfl
        | ok next => exact ih next long data

/-- The reader's walk is the callback's way along the walk. -/
theorem iterateDirectory_run (fuel : Nat) (v : Volume) (directory : Directory) (data : σ) :
    iterateDirectory fuel v directory callback data =
      (walkDirectory fuel v directory).run callback data := by
  rw [iterateDirectory, walkDirectory]
  split
  · rw [run_walkSectors]
    cases visitSectors v callback (sectorsFrom v.rootSector v.rootSectors) LongName.none data with
    | error stop => rfl
    | ok r => rcases r with ⟨data, _ | long⟩ <;> rfl
  · exact (run_walkClusters callback v fuel _ _ data).symm

end Run

/-! ### Paths -/

/-- A path below another one. -/
def below (path rest : Bytes) : Bytes := path ++ slash :: rest

private theorem components_below (path rest : Bytes) :
    components (below path rest) = components path ++ components rest := by
  rw [components_eq, components_eq, components_eq, pathNames, below, splitOn_append_cons_self,
    filter_append]
  rfl

variable {name path : Bytes} {rest : List Bytes} {info : EntryInfo} {image : Store}
  {long : LongName} {maxEntries : Nat} {entries entries' : List EntryInfo}

/-- A name is a path of one component. -/
theorem components_name (hne : name ≠ []) (hname : slash ∉ name) : components name = [name] := by
  have happend := pathNames_append hne hname (.inl rfl)
  rw [append_nil] at happend
  rw [components_eq, happend]
  rfl

variable {fuel : Nat} {v : Volume}

private theorem resolveComponents_append (names : List Bytes) (hrest : rest ≠ [])
    (hinfo : info.directory = true) (current : Directory) :
    resolveComponents fuel v (names ++ rest) info current =
      resolveComponents fuel v names info current >>= fun found =>
        match found with
        | none => .ok none
        | some (info, current) =>
          if info.directory = true then resolveComponents fuel v rest info current
          else .ok none := by
  induction names generalizing info current with
  | nil =>
    change _ = if info.directory = true then _ else _
    rw [if_pos hinfo]
    rfl
  | cons name names ih =>
    rw [cons_append, resolveComponents, resolveComponents]
    cases iterateDirectory fuel v current (searchCallback name) none with
    | error stop => rfl
    | ok found =>
      cases found with
      | none => rfl
      | some sub =>
        change (if names ++ rest ≠ [] ∧ sub.directory = false then _ else _) =
          (if names ≠ [] ∧ sub.directory = false then _ else _) >>= _
        by_cases hsub : sub.directory = true
        · have hgo (l : List Bytes) : ¬(l ≠ [] ∧ sub.directory = false) := by simp [hsub]
          rw [if_neg (hgo _), if_neg (hgo _)]
          exact ih hsub _
        · have hfalse : sub.directory = false := by simpa using hsub
          rw [if_pos ⟨by simp [hrest], hfalse⟩]
          split
          · rfl
          · next hnames =>
            have hnil : names = [] := by simpa [hfalse] using hnames
            subst hnil
            change _ = if sub.directory = true then _ else _
            rw [if_neg hsub]
            rfl

/-- A path below a directory is looked up from that directory. -/
theorem resolvePath_below {rest : Bytes} {directory : Directory}
    (h : resolvePath fuel v path = .ok (some (info, directory))) (hdir : info.directory = true)
    (hrest : components rest ≠ []) : resolvePath fuel v (below path rest) =
      resolveComponents fuel v (components rest) info directory := by
  rw [resolvePath, components_below, resolveComponents_append _ hrest rfl, ← resolvePath, h]
  exact if_pos hdir

/-- A component that is found, and what follows it. -/
theorem resolveComponents_cons {sub : EntryInfo} {directory : Directory}
    (h : iterateDirectory fuel v directory (searchCallback name) none = .ok (some sub))
    (hgo : rest = [] ∨ sub.directory = true) (info : EntryInfo) :
    resolveComponents fuel v (name :: rest) info directory = resolveComponents fuel v rest sub
      (if sub.directory = true then ⟨false, sub.firstCluster⟩ else directory) := by
  rw [resolveComponents, h]
  change (if rest ≠ [] ∧ sub.directory = false then _ else _) = _
  rw [if_neg]
  rintro ⟨hne, hsub⟩
  rcases hgo with hnil | hgo
  · exact hne hnil
  · rw [hgo] at hsub
    cases hsub

/-! ### Names on a walk -/

/-- A name that `fat_entry_info` holds: of a short entry, or ASCII. -/
def FitsName (name : Bytes) : Prop :=
  name.length ≤ 12 ∨ name.length < fatMaxName ∧ ∀ c ∈ name, c < 128

/-- A collected name is ASCII. -/
def LongName.Ascii (long : LongName) : Prop := ∀ k, long.chars k < 128

/-- Every entry on the walk has a name that fits. -/
def Walk.Fits : Walk → Prop
  | .meets info rest => FitsName info.name ∧ rest.Fits
  | _ => True

private theorem readNameField_length {off count : Nat}
    (h : readNameField image off count = .ok name) : name.length ≤ count := by
  induction count generalizing off name with
  | zero =>
    cases h
    exact le_rfl
  | succ count ih =>
    obtain ⟨c, -, h⟩ := bind_eq_ok.mp h
    split at h
    · cases h
      exact Nat.zero_le _
    · obtain ⟨rest, hrest, h⟩ := bind_eq_ok.mp h
      cases h
      exact Nat.succ_le_succ (ih hrest)

private theorem length_cstring_le (bytes : Bytes) :
    (cstring bytes).val.length ≤ bytes.length := ( takeWhile_prefix _).length_le

private theorem shortNameToString_length {entry : Nat}
    (h : shortNameToString image entry = .ok name) : name.length ≤ 12 := by
  obtain ⟨base, hbase, h⟩ := bind_eq_ok.mp h
  obtain ⟨c, -, h⟩ := bind_eq_ok.mp h
  have hb := readNameField_length hbase
  split at h
  · cases h
    exact Nat.le_trans (length_cstring_le _) (by omega)
  · obtain ⟨extension, hext, h⟩ := bind_eq_ok.mp h
    have he := readNameField_length hext
    cases h
    apply Nat.le_trans (length_cstring_le _)
    rw [length_append, length_cons]
    omega

private theorem longNameLoop_ascii {entry : Nat} {offsets : List Nat} {index : Nat}
    {name name' : Nat → UInt8} (hname : ∀ k, name k < 128)
    (h : longNameLoop image entry offsets index name = .ok name') : ∀ k, name' k < 128 := by
  induction offsets generalizing index name with
  | nil =>
    cases h
    exact hname
  | cons offset rest ih =>
    rw [longNameLoop] at h
    split at h
    · cases h
      exact hname
    · obtain ⟨value, -, h⟩ := bind_eq_ok.mp h
      split at h
      · split at h
        · cases h
          exact hname
        · exact ih hname h
      · refine ih ?_ h
        intro k
        split
        · split
          · next hlt => exact UInt8.lt_iff_toNat_lt.mpr (by simp; omega)
          · decide
        · exact hname k

private theorem LongName.Ascii.fitsName (h : long.Ascii) : FitsName long.text := by
  refine .inr ⟨?_, ?_⟩
  · refine Nat.lt_of_le_of_lt (length_cstring_le _) ?_
    rw [length_map, length_range]
    decide
  · intro c hc
    obtain ⟨k, -, rfl⟩ := mem_map.mp (( takeWhile_prefix _).subset hc)
    exact h k

/-- A slot keeps the collected name ASCII, and the name of its entry fits. -/
def SlotContent.Fits : SlotContent → Prop
  | .last => True
  | .skip long => long.Ascii
  | .entry info => FitsName info.name

private theorem readSlot_fits {image : Store} {entry : Nat} {long : LongName}
    {content : SlotContent} (hlong : long.Ascii) (h : readSlot image entry long = .ok content) :
      content.Fits := by
  obtain ⟨first, -, h⟩ := bind_eq_ok.mp h
  split at h
  · cases h
    trivial
  split at h
  · cases h
    exact hlong
  obtain ⟨attributes, -, h⟩ := bind_eq_ok.mp h
  split at h
  · have hchars : ∀ k, (if first.toNat / 64 % 2 = 1 then fun _ => 0 else long.chars) k < 128 := by
      intro k
      split
      · exact (by decide : (0 : UInt8) < 128)
      · exact hlong k
    dsimp only at h
    split at h
    · obtain ⟨chars, hchunk, h⟩ := bind_eq_ok.mp h
      cases h
      exact longNameLoop_ascii hchars hchunk
    · cases h
      exact hchars
  split at h
  · cases h
    exact hlong
  obtain ⟨name, hname, h⟩ := bind_eq_ok.mp h
  obtain ⟨size, -, h⟩ := bind_eq_ok.mp h
  obtain ⟨high, -, h⟩ := bind_eq_ok.mp h
  obtain ⟨low, -, h⟩ := bind_eq_ok.mp h
  cases h
  rw [entryName] at hname
  split at hname
  · cases hname
    exact hlong.fitsName
  · exact .inl (shortNameToString_length hname)

private theorem walkSlots_fits {slots : List Nat} {next : LongName → Walk} (hlong : long.Ascii)
    (hnext : ∀ long, long.Ascii → (next long).Fits) : (walkSlots image slots long next).Fits := by
  induction slots generalizing long with
  | nil => exact hnext long hlong
  | cons entry rest ih =>
    rw [walkSlots]
    have hslot := @readSlot_fits image entry long
    cases hread : readSlot image entry long with
    | error stop => trivial
    | ok content =>
      have hfits := hslot hlong hread
      cases content with
      | last => trivial
      | skip long => exact ih hfits
      | entry info => exact ⟨hfits, ih hlong⟩

private theorem walkSectors_fits {sectors : List Nat} {next : LongName → Walk} (hlong : long.Ascii)
    (hnext : ∀ long, long.Ascii → (next long).Fits) : (walkSectors v sectors long next).Fits := by
  induction sectors generalizing long with
  | nil => exact hnext long hlong
  | cons sector rest ih =>
    rw [walkSectors]
    cases sectorPointer v sector with
    | none => trivial
    | some offset => exact walkSlots_fits hlong fun long hlong => ih hlong

private theorem walkClusters_fits (fuel cluster : Nat) (hlong : long.Ascii) :
    (walkClusters v fuel cluster long).Fits := by
  induction fuel generalizing cluster long with
  | zero => trivial
  | succ fuel ih =>
    rw [walkClusters]
    split
    · trivial
    · apply walkSectors_fits hlong
      intro long hlong
      cases nextCluster v cluster with
      | error stop => trivial
      | ok next => exact ih next hlong

/-- Names on a directory walk fit, whatever the image holds. -/
theorem walkDirectory_fits (fuel : Nat) (v : Volume) (directory : Directory) :
    (walkDirectory fuel v directory).Fits := by
  have hnone : LongName.none.Ascii := fun _ => (by decide : (0 : UInt8) < 128)
  rw [walkDirectory]
  split
  · exact walkSectors_fits hnone fun _ _ => trivial
  · exact walkClusters_fits _ _ hnone

/-! ### Listing and lookup -/

private theorem FitsName.take (h : FitsName name) : name.take (fatMaxName - 1) = name := by
  apply take_of_length_le
  change name.length ≤ 127
  rcases h with h | ⟨h, -⟩
  · omega
  · exact Nat.le_of_lt_succ h

/-- `.` or `..`, which a listing leaves out. -/
def DotName (name : Bytes) : Prop :=
  nameEquals name [46] = true ∨ nameEquals name [46, 46] = true

private theorem DotName.congr {a c : Bytes} (hsame : SameName a c) (h : DotName a) :
    DotName c := by
  rw [DotName, nameEquals_iff, nameEquals_iff] at h ⊢
  exact h.imp hsame.symm.trans hsame.symm.trans

private theorem run_listing_meets {rest : Walk}
    (h : (Walk.meets info rest).run (listingCallback maxEntries) entries = .ok entries') :
    DotName info.name ∧ rest.run (listingCallback maxEntries) entries = .ok entries' ∨
      ¬DotName info.name ∧ (entries' = entries ++ [info] ∨
        rest.run (listingCallback maxEntries) (entries ++ [info]) = .ok entries') := by
  rw [Walk.run, listingCallback] at h
  split_ifs at h with hdot
  · exact .inl ⟨hdot, h⟩
  · refine .inr ⟨hdot, ?_⟩
    cases hmore : decide (entries.length + 1 < maxEntries) with
    | false =>
      rw [hmore] at h
      exact .inl (Except.ok.inj h).symm
    | true =>
      rw [hmore] at h
      exact .inr h

private theorem listing_extends {w : Walk} (hw : w.Fits)
    (h : w.run (listingCallback maxEntries) entries = .ok entries') : entries <+: entries' ∧
      ∀ e ∈ entries', e ∈ entries ∨ ¬DotName e.name ∧ FitsName e.name := by
  induction w generalizing entries with
  | ended =>
    cases h
    exact ⟨prefix_rfl, fun e he => .inl he⟩
  | stopped stop => cases h
  | meets info rest ih =>
    have hadded (e : EntryInfo) (hdot : ¬DotName info.name) (he : e ∈ entries ++ [info]) :
        e ∈ entries ∨ ¬DotName e.name ∧ FitsName e.name := by
      rcases mem_append.mp he with he | he
      · exact .inl he
      · rw [mem_singleton.mp he]
        exact .inr ⟨hdot, hw.1⟩
    have hone := prefix_append entries [info]
    rcases run_listing_meets h with ⟨-, h⟩ | ⟨hdot, rfl | h⟩
    · exact ih hw.2 h
    · exact ⟨hone, fun e he => hadded e hdot he⟩
    · obtain ⟨hpre, hall⟩ := ih hw.2 h
      refine ⟨hone.trans hpre, fun e he => ?_⟩
      rcases hall e he with he | he
      · exact hadded e hdot he
      · exact .inr he

private theorem search_of_listing {found : EntryInfo} (hfits : name.take (fatMaxName - 1) = name)
    (hdots : ¬DotName name) {w : Walk} (hw : w.Fits) (hnone : entryNamed entries name = none)
    (h : w.run (listingCallback maxEntries) entries = .ok entries')
    (hfind : entryNamed entries' name = some found) :
    w.run (searchCallback name) none = .ok (some found) := by
  induction w generalizing entries with
  | ended =>
    cases h
    rw [hnone] at hfind
    cases hfind
  | stopped stop => cases h
  | meets info rest ih =>
    rw [Walk.run, searchCallback, hfits]
    have happend (more : List EntryInfo) : entryNamed (entries ++ [info] ++ more) name =
        if SameName info.name name then some info else entryNamed more name := by
      rw [entryNamed, append_assoc, find?_append, ← entryNamed, hnone,
        singleton_append, find?_cons]
      by_cases hsame : SameName info.name name
      · rw [if_pos hsame, decide_eq_true hsame]
        rfl
      · rw [if_neg hsame, decide_eq_false hsame]
        rfl
    by_cases hsame : SameName info.name name
    · rw [if_pos ((nameEquals_iff _ _).mpr hsame)]
      have hlisted : entries ++ [info] <+: entries' := by
        rcases run_listing_meets h with ⟨hdot, -⟩ | ⟨-, rfl | h⟩
        · exact absurd (hdot.congr hsame) hdots
        · exact prefix_rfl
        · exact (listing_extends hw.2 h).1
      obtain ⟨more, rfl⟩ := hlisted
      rw [happend, if_pos hsame] at hfind
      rw [hfind]
    · rw [if_neg fun h => hsame ((nameEquals_iff _ _).mp h)]
      have hnext := happend []
      rw [append_nil, if_neg hsame] at hnext
      rcases run_listing_meets h with ⟨-, h⟩ | ⟨-, rfl | h⟩
      · exact ih hw.2 hnone h
      · rw [hnext] at hfind
        cases hfind
      · exact ih hw.2 hnext h

/-- Every entry of a listing whose name can stand in a path is found under the path of the directory
and that name: the lookup returns the first entry listed with the name, up to ASCII case. -/
theorem lookup_finds_listed (image : Store) : ∀ v ∈ fatMount image,
    ∀ fuel path maxEntries entries, fatListDirectory fuel v path maxEntries = .ok entries →
      ∀ e ∈ entries, e.name ≠ [] → slash ∉ e.name →
        ∃ found, entryNamed entries e.name = some found ∧
          fatStat fuel v (below path e.name) = .ok (some found) := by
  intro v _ fuel path maxEntries entries h e he hne hslash
  rw [fatListDirectory] at h
  split at h
  · cases h
    cases he
  · obtain ⟨found, hresolve, h⟩ := bind_eq_ok.mp h
    rcases found with _ | ⟨info, directory⟩
    · cases h
      cases he
    · dsimp only at h
      split at h
      · cases h
        cases he
      · next hdir =>
        have hwalk := walkDirectory_fits fuel v directory
        rw [iterateDirectory_run] at h
        rcases (listing_extends hwalk h).2 e he with hnil | ⟨hdot, hfits⟩
        · cases hnil
        have hsome : (entryNamed entries e.name).isSome = true :=
          find?_isSome.mpr ⟨e, he, decide_eq_true rfl⟩
        obtain ⟨found, hfind⟩ := Option.isSome_iff_exists.mp hsome
        have hsearch := search_of_listing hfits.take hdot hwalk rfl h hfind
        rw [← iterateDirectory_run] at hsearch
        have hname := components_name hne hslash
        refine ⟨found, hfind, ?_⟩
        rw [fatStat, resolvePath_below hresolve (by simpa using hdir) (by rw [hname]; simp), hname,
          resolveComponents_cons hsearch (.inl rfl)]
        rfl

/-- Bytes of the directory slot of a subdirectory at `entry`. -/
def slotOfDirectory (entry : Nat) (name : Bytes) (firstCluster : UInt8) :
    List (Nat × UInt8) :=
  (range 11).map (fun k => (entry + k, name.getD k 32)) ++
    [(entry + 11, 16), (entry + 26, firstCluster)]

/-- A volume with a file `A` and a directory `B` in its root directory. -/
def twoEntries : Store :=
  imageOf 1536 ([(12, 2), (13, 1), (14, 1), (16, 1), (17, 16), (19, 5), (22, 1)] ++
    slotOfFileA 1024 2 600 ++ slotOfDirectory 1056 [66] 3)

/-- The volume of `twoEntries`. -/
def twoEntriesVolume : Volume := (fatMount twoEntries).get (by decide)

/-- The second of two entries that are listed is found. -/
theorem lookup_finds_listed_twoEntries :
    fatListDirectory 1 twoEntriesVolume [slash] 4 =
      .ok [⟨[97], 600, 2, false⟩, ⟨[98], 0, 3, true⟩] ∧
    ∃ found, entryNamed [⟨[97], 600, 2, false⟩, ⟨[98], 0, 3, true⟩] [98] = some found ∧
      fatStat 1 twoEntriesVolume (below [slash] [98]) = .ok (some found) := by
  have hlist : fatListDirectory 1 twoEntriesVolume [slash] 4 =
      .ok [⟨[97], 600, 2, false⟩, ⟨[98], 0, 3, true⟩] := by
    decide
  exact ⟨hlist, lookup_finds_listed twoEntries _ (Option.get_mem _) 1 _ 4 _ hlist
    ⟨[98], 0, 3, true⟩ (by simp) (by decide) (by decide)⟩

/-! ### Parent links -/

/-- A relative path: neither empty nor starting with a slash. -/
def Relative (path : Bytes) : Prop := path ≠ [] ∧ path.head? ≠ some slash

/-- A directory at a path and a subdirectory of it, whose entry `..` holds the first cluster of the
directory, or 0 when that is the root. -/
structure Subdirectory (fuel : Nat) (v : Volume) (path name : Bytes) (parent sub : EntryInfo) :
    Prop where
  nonempty : name ≠ []
  component : slash ∉ name
  ordinary : ¬DotName name
  parentFound : fatStat fuel v path = .ok (some parent)
  parentDirectory : parent.directory = true
  subFound : fatStat fuel v (below path name) = .ok (some sub)
  subDirectory : sub.directory = true
  link : ∃ up, iterateDirectory fuel v ⟨false, sub.firstCluster⟩ (searchCallback [46, 46]) none =
    .ok (some up) ∧ up.directory = true ∧
      up.firstCluster = if components path = [] then 0 else parent.firstCluster

private theorem components_relative (h : Relative path) : components path ≠ [] := by
  obtain ⟨hne, hhead⟩ := h
  cases path with
  | nil => exact absurd rfl hne
  | cons c rest =>
    have hc : ¬(c == slash) = true := by simpa using hhead
    rw [components, componentsFrom, dropWhile_cons_of_neg (p := (· == slash)) hc]
    simp

private theorem fatStat_eq_some (h : fatStat fuel v path = .ok (some info)) :
    ∃ directory, resolvePath fuel v path = .ok (some (info, directory)) := by
  obtain ⟨found, hfound, h⟩ := bind_eq_ok.mp h
  rcases found with _ | ⟨found, directory⟩
  · cases h
  · cases h
    exact ⟨directory, hfound⟩

private theorem resolveComponents_current {names : List Bytes} {info' : EntryInfo}
    {current current' : Directory} (hne : names ≠ []) (hdir : info'.directory = true)
    (h : resolveComponents fuel v names info current = .ok (some (info', current'))) :
    current' = ⟨false, info'.firstCluster⟩ := by
  induction names generalizing info current with
  | nil => exact absurd rfl hne
  | cons name rest ih =>
    obtain ⟨found, -, h⟩ := bind_eq_ok.mp h
    cases found with
    | none => cases h
    | some sub =>
      dsimp only at h
      split at h
      · cases h
      · cases rest with
        | nil =>
          cases h
          rw [if_pos hdir]
        | cons next rest => exact ih (cons_ne_nil _ _) h

private theorem Subdirectory.directories {parent sub : EntryInfo}
    (h : Subdirectory fuel v path name parent sub) :
    ∃ directory up, resolvePath fuel v path = .ok (some (parent, directory)) ∧ up.directory = true ∧
      up.firstCluster = (if components path = [] then 0 else parent.firstCluster) ∧
      ∀ rest, components rest ≠ [] →
        resolvePath fuel v (below path (below name (below [46, 46] rest))) =
          resolveComponents fuel v (components rest) up ⟨false, up.firstCluster⟩ := by
  obtain ⟨directory, hparent⟩ := fatStat_eq_some h.parentFound
  obtain ⟨last, hsub⟩ := fatStat_eq_some h.subFound
  obtain ⟨up, hsearch, hup, hlink⟩ := h.link
  have hname := components_name h.nonempty h.component
  refine ⟨directory, up, hparent, hup, hlink, ?_⟩
  intro rest hrest
  have hlast : last = ⟨false, sub.firstCluster⟩ := by
    rw [resolvePath, components_below, hname] at hsub
    exact resolveComponents_current (by simp) h.subDirectory hsub
  have hdots : components [46, 46] = [[46, 46]] := components_name (by decide) (by decide)
  have hassoc : below path (below name (below [46, 46] rest)) =
      below (below path name) (below [46, 46] rest) := by
    simp [below]
  rw [hassoc, resolvePath_below hsub h.subDirectory, hlast, components_below, hdots,
    singleton_append, resolveComponents_cons hsearch (.inr hup), if_pos hup]
  rw [components_below, hdots]
  simp

/-- Going down into a subdirectory and up again leads to the same entries as staying, except below
the root directory: the link to it has cluster 0, which the reader takes for an empty directory. -/
theorem parent_link_iff {path name : Bytes} {parent sub : EntryInfo}
    (h : Subdirectory fuel v path name parent sub) :
    (∀ rest, Relative rest → fatStat fuel v (below path (below name (below [46, 46] rest))) =
      fatStat fuel v (below path rest)) ↔ components path ≠ [] := by
  obtain ⟨directory, up, hparent, hup, hlink, hrest⟩ := h.directories
  constructor
  · intro hall hroot
    have hname := components_name h.nonempty h.component
    have hrel : Relative name := by
      refine ⟨h.nonempty, fun hhead => h.component ?_⟩
      exact mem_of_head? hhead
    have hstat := hall name hrel
    rw [h.subFound, fatStat, hrest name (components_relative hrel), hlink, if_pos hroot,
      hname] at hstat
    cases fuel with
    | zero | succ fuel => cases hstat
  · intro hne rest hrel
    have hcomponents := components_relative hrel
    have hdirectory : directory = ⟨false, parent.firstCluster⟩ :=
      resolveComponents_current hne h.parentDirectory hparent
    rw [fatStat, fatStat, hrest rest hcomponents,
      resolvePath_below hparent h.parentDirectory hcomponents, hlink, if_neg hne, hdirectory]
    cases hnames : components rest with
    | nil => exact absurd hnames hcomponents
    | cons name names => rfl

/-- A FAT12 volume: `D` in the root directory is cluster 2, and `E` in it is cluster 3. -/
def nested : Store :=
  imageOf 2560 ([(12, 2), (13, 1), (14, 1), (16, 1), (17, 16), (19, 5), (22, 1), (515, 255),
      (516, 255), (517, 255)] ++
    slotOfDirectory 1024 [68] 2 ++ slotOfDirectory 1536 [46] 2 ++
    slotOfDirectory 1568 [46, 46] 0 ++ slotOfDirectory 1600 [69] 3 ++
    slotOfDirectory 2048 [46] 3 ++ slotOfDirectory 2080 [46, 46] 2)

/-- The volume of `nested`. -/
def nestedVolume : Volume := (fatMount nested).get (by decide)

instance (name : Bytes) : Decidable (DotName name) := inferInstanceAs (Decidable (_ ∨ _))

/-- Through `/D/E` and back to `/D`. -/
theorem parent_link_nested :
    Subdirectory 2 nestedVolume [slash, 68] [69] ⟨[100], 0, 2, true⟩ ⟨[101], 0, 3, true⟩ ∧
      ∀ rest, Relative rest →
        fatStat 2 nestedVolume (below [slash, 68] (below [69] (below [46, 46] rest))) =
          fatStat 2 nestedVolume (below [slash, 68] rest) := by
  have hsub : Subdirectory 2 nestedVolume [slash, 68] [69] ⟨[100], 0, 2, true⟩
      ⟨[101], 0, 3, true⟩ :=
    ⟨by decide, by decide, by decide, by decide, rfl, by decide, rfl,
      ⟨[46, 46], 0, 2, true⟩, by decide, rfl, by decide⟩
  exact ⟨hsub, (parent_link_iff hsub).mpr (by decide)⟩

/-- `/D/../D` is not found, although `/D` is. -/
theorem parent_link_of_root : nestedVolume ∈ fatMount nested ∧
    Subdirectory 2 nestedVolume [slash] [68] (rootInfo nestedVolume) ⟨[100], 0, 2, true⟩ ∧
    Relative [68] ∧ fatStat 2 nestedVolume (below [slash] [68]) = .ok (some ⟨[100], 0, 2, true⟩) ∧
    fatStat 2 nestedVolume (below [slash] (below [68] (below [46, 46] [68]))) = .ok none := by
  refine ⟨Option.get_mem _, ⟨by decide, by decide, by decide, by decide, rfl,
    by decide, rfl, ⟨[46, 46], 0, 0, true⟩, by decide, rfl, by decide⟩,
    ⟨by decide, by decide⟩, by decide, by decide⟩

end NasuaOS.Fat
