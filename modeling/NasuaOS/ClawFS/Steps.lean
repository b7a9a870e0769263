import NasuaOS.ClawFS.Preservation

/-!
# Operations as changes of the tree

Each operation with its paths in directories makes at most one change: one entry put, or one
dropped. What it puts, where, and with which sectors follows from the state before it: the
allocator, the slot that its name is found in, and the number of sectors that the contents need.
`clawfs.cpp:385–500,779–870`.
-/

namespace NasuaOS.ClawFS

open Base Libc Finset

variable {m m' : Machine} {dirs : Nat → Prop} {depth : Nat → Nat} {d i : Nat}

/-- Components of the path of the directory that an operation may put an entry in; a removal
puts none. -/
def Op.level : Op → Nat
  | .mkdir parentPath _ => (pathTokens parentPath.val).length
  | .createFileIn path _ => (pathTokens path.val).length
  | .writeFile path _ =>
    match splitFilePath path.val with
    | none => 0
    | some (parentPath, _) => (pathTokens parentPath).length
  | .rm _ _ _ => 0

/-- The name that an operation is given. -/
def Op.name : Op → Bytes
  | .mkdir _ dirName => dirName.val
  | .createFileIn _ name => name.val
  | .writeFile path _ => ((splitFilePath path.val).map Prod.snd).getD []
  | .rm _ name _ => name.val

/-- An operation that does not look for its name first is given one that its directory does not
hold. -/
def Op.Fresh (disk : Disk) : Op → Prop
  | .mkdir parentPath dirName => findSlot (disk (lookupPath disk parentPath.val)) dirName.val = none
  | .createFileIn path name => findSlot (disk (lookupPath disk path.val)) name.val = none
  | .writeFile _ _ => True
  | .rm _ _ _ => True

instance (disk : Disk) : (op : Op) → Decidable (op.Fresh disk)
  | .mkdir _ _ => inferInstanceAs (Decidable (_ = _))
  | .createFileIn _ _ => inferInstanceAs (Decidable (_ = _))
  | .writeFile _ _ => isTrue trivial
  | .rm _ _ _ => isTrue trivial

/-! ### Sectors that an operation gives to an entry -/

/-- Sectors for a new entry of a directory. -/
def createdSectors (m : Machine) (d : Nat) : Finset Nat :=
  if d = 0 ∨ freeSlot (m.disk d) = none then ∅
  else Ico m.nextFreeSector (m.nextFreeSector + 1)

/-- Sectors that an entry has after contents were stored; none when that is refused. -/
def storedSectors (next : Nat) (e : CLAWFSEntry) (length : Nat) : Finset Nat :=
  if e.type ≠ clawfsFile ∨ clawfsMaxFileSize < e.entryCount then ∅
  else
    match targetFor next e (sectorsFor length) with
    | none => ∅
    | some (target, _) => Ico target (target + sectorsFor length)

/-- Sectors of a file that is made for its contents. The sector it is made with stays unused when
the contents need more than one. -/
def freshSectors (next length : Nat) : Finset Nat :=
  match targetFor (next + 1) ⟨clawfsFile, next, 0⟩ (sectorsFor length) with
  | none => Ico next (next + 1)
  | some (target, _) => Ico target (target + sectorsFor length)

/-- Sectors of the entry that an operation puts. -/
def Op.sectors (m : Machine) : Op → Finset Nat
  | .mkdir parentPath _ => createdSectors m (lookupPath m.disk parentPath.val)
  | .createFileIn path name =>
    if name.val = [] ∨ 28 ≤ name.val.length then ∅
    else createdSectors m (lookupPath m.disk path.val)
  | .writeFile path data =>
    if clawfsMaxFileSize < data.length then ∅
    else
      match splitFilePath path.val with
      | none => ∅
      | some (parentPath, fileName) =>
        if lookupPath m.disk parentPath = 0 then ∅
        else
          match findEntry (m.disk (lookupPath m.disk parentPath)) fileName with
          | some e => storedSectors m.nextFreeSector e data.length
          | none =>
            if freeSlot (m.disk (lookupPath m.disk parentPath)) = none then ∅
            else freshSectors m.nextFreeSector data.length
  | .rm _ _ _ => ∅

/-- What an operation does to a sound tree: nothing, or it puts an entry with its name and the
sectors it gives away, or it drops one. -/
inductive Effect (m m' : Machine) (dirs : Nat → Prop) (depth : Nat → Nat) (op : Op) : Prop
  | same (unchanged : m' = m) (none : op.sectors m = ∅)
  | put (d i : Nat) (entry : Put m m' dirs d i) (deep : depth d = op.level)
      (given : owned (entryAt (m'.disk d) i) = op.sectors m)
      (called : named (m'.disk d) op.name i = true)
      (fresh : op.Fresh m.disk →
        findSlot (m.disk d) op.name = .none ∨ findSlot (m.disk d) op.name = some i)
  | drop (d i : Nat) (entry : Drop m m' dirs d i) (none : op.sectors m = ∅)

private theorem no_wrap_of_room (hi : m.nextFreeSector < 2 ^ 32) {extra : Nat} (he : extra ≤ 2 ^ 16)
    (hn : m'.nextFreeSector = (m.nextFreeSector + 1) % 2 ^ 32 + extra)
    (hroom : m.nextFreeSector + allocatedBy m m' < 2 ^ 32) : m.nextFreeSector + 1 < 2 ^ 32 := by
  rw [allocatedBy, hn] at hroom
  omega

/-! ### Creation and removal -/

/-- A new entry takes at most one sector. -/
theorem created_next (path name : Bytes) (type : Nat) (hroom : m.nextFreeSector + 1 < 2 ^ 32) :
    ∃ extra, extra ≤ 1 ∧ (created m path name type).nextFreeSector = m.nextFreeSector + extra := by
  rw [created]
  split
  · exact ⟨0, Nat.zero_le 1, rfl⟩
  · cases freeSlot (m.disk (lookupPath m.disk path)) with
    | none => exact ⟨0, Nat.zero_le 1, rfl⟩
    | some i => exact ⟨1, Nat.le_refl 1, Nat.mod_eq_of_lt hroom⟩

private theorem Sound.addEntry_sectors (h : Sound m dirs depth) (hi : i < slotCount)
    (name : Bytes) {type : Nat} (ht : type = clawfsFile ∨ type = clawfsDirectory) :
    owned (entryAt ((addEntry m d i name type).disk d) i) =
      Ico m.nextFreeSector (m.nextFreeSector + 1) := by
  rcases ht with rfl | rfl
  · rw [entryAt_addEntry hi name (by decide) h.high, owned, ownedCount_file rfl]
    rfl
  · rw [entryAt_addEntry hi name (by decide) h.high, owned, ownedCount_directory rfl]

variable {name path parentPath fileName data : Bytes}

/-- A slot that was filled answers to its name. -/
theorem named_addEntry (m : Machine) (d : Nat) (hi : i < slotCount) (h0 : (0 : UInt8) ∉ name)
    (hn : name.length < 28) (type : Nat) :
    named ((addEntry m d i name type).disk d) name i = true := by
  rw [named_iff_holds _ _ _ h0]
  simp only [addEntry, writeDisk_same]
  exact holds_fillSlot _ i name type _ hi hn

/-- Asking for an entry changes nothing, or adds it to the directory at the path. -/
theorem Sound.created_cases (h : Sound m dirs depth) {type : Nat} (hp : DirPath m.disk path)
    (hname : name ≠ [] ∧ name.length < 28) (h0 : (0 : UInt8) ∉ name)
    (ht : type = clawfsFile ∨ type = clawfsDirectory)
    (hroom : m.nextFreeSector + allocatedBy m (created m path name type) < 2 ^ 32) :
    (created m path name type = m ∧ createdSectors m (lookupPath m.disk path) = ∅) ∨
    ∃ d i, lookupPath m.disk path = d ∧ depth d = (pathTokens path).length ∧
      created m path name type = addEntry m d i name type ∧
      Put m (addEntry m d i name type) dirs d i ∧
      owned (entryAt ((addEntry m d i name type).disk d) i) = createdSectors m d := by
  rw [created] at hroom ⊢
  rw [createdSectors]
  by_cases hz : lookupPath m.disk path = 0
  · rw [if_pos hz, if_pos (.inl hz)]
    exact .inl ⟨rfl, rfl⟩
  obtain ⟨hd, hdep⟩ := h.lookupPath_dir hp hz
  rw [if_neg hz] at hroom ⊢
  cases hfree : freeSlot (m.disk (lookupPath m.disk path)) with
  | none => exact .inl ⟨rfl, if_pos (.inr rfl)⟩
  | some i =>
    rw [hfree] at hroom
    have hnext := no_wrap_of_room h.high (Nat.zero_le _) rfl hroom
    have hput := h.addEntry_put hd hfree name hname.2 hname.1 h0 ht hnext
    refine .inr ⟨_, i, rfl, hdep, rfl, hput, ?_⟩
    rw [h.addEntry_sectors hput.slot name ht, createdSectors, if_neg (by simp [hz, hfree])]

private theorem not_invalid (hname : name ≠ [] ∧ name.length < 28) :
    ¬ (name = [] ∨ 28 ≤ name.length) := by
  rintro (hn | hn)
  · exact hname.1 hn
  · omega

section

variable (h : Sound m dirs depth)

include h

private theorem Sound.mkdir_effect (parentPath dirName : CString)
    (hv : (Op.mkdir parentPath dirName).Valid m.disk)
    (hroom : m.nextFreeSector + allocatedBy m ((Op.mkdir parentPath dirName).run m) < 2 ^ 32) :
    Effect m ((Op.mkdir parentPath dirName).run m) dirs depth (.mkdir parentPath dirName) := by
  have hname := And.intro hv.1.1 hv.1.2.1
  simp only [Op.run, clawfsMkdir_created h.mounted] at hroom ⊢
  rcases h.created_cases hv.2 hname dirName.property (.inr rfl) hroom with
    ⟨heq, hnone⟩ | ⟨d, i, rfl, hdep, heq, hput, hgiven⟩
  · exact .same heq hnone
  · rw [heq]
    exact .put _ i hput hdep hgiven
      (named_addEntry m _ hput.slot dirName.property hname.2 _) .inl

private theorem Sound.createFileIn_effect (path name : CString)
    (hv : (Op.createFileIn path name).Valid m.disk)
    (hroom : m.nextFreeSector + allocatedBy m ((Op.createFileIn path name).run m) < 2 ^ 32) :
    Effect m ((Op.createFileIn path name).run m) dirs depth (.createFileIn path name) := by
  have hname := And.intro hv.1.1 hv.1.2.1
  have hsectors : (Op.createFileIn path name).sectors m =
      createdSectors m (lookupPath m.disk path.val) := if_neg (not_invalid hname)
  simp only [Op.run, clawfsCreateFileIn_created h.mounted, if_neg (not_invalid hname)] at hroom ⊢
  rcases h.created_cases hv.2 hname name.property (.inl rfl) hroom with
    ⟨heq, hnone⟩ | ⟨d, i, rfl, hdep, heq, hput, hgiven⟩
  · exact .same heq (hsectors.trans hnone)
  · rw [heq]
    exact .put _ i hput hdep (hgiven.trans hsectors.symm)
      (named_addEntry m _ hput.slot name.property hname.2 _) .inl

/-- `clawfs_rm` does nothing or drops the entry that it finds. -/
theorem Sound.rm_drop (parentPath name : CString) (type : Nat)
    (hv : (Op.rm parentPath name type).Valid m.disk) : (Op.rm parentPath name type).run m = m ∨
      ∃ d i, lookupPath m.disk parentPath.val = d ∧ d ≠ 0 ∧
        removalSlot (m.disk d) name.val type = some i ∧
        Drop m ((Op.rm parentPath name type).run m) dirs d i := by
  simp only [Op.run, clawfsRm_mounted m h.mounted]
  split
  · exact .inl rfl
  · next hz =>
    obtain ⟨hd, -⟩ := h.lookupPath_dir hv.2 hz
    cases hslot : removalSlot (m.disk (lookupPath m.disk parentPath.val)) name.val type with
    | none => exact .inl rfl
    | some i =>
      simp only
      split
      · exact .inl rfl
      · next hb =>
        obtain ⟨hi, hp⟩ := firstSlot_some hslot
        simp only [Bool.and_eq_true, decide_eq_true_eq] at hp
        refine .inr ⟨_, i, rfl, hz, hslot, h.dropEntry_drop hd hi ?_⟩
        intro ht
        rw [hp.2] at ht
        simpa [removalBlocked, ht] using hb

/-! ### Lookup in a directory of the tree -/

/-- In the tree every entry has a sector, so a lookup finds what its slot search finds. -/
theorem Sound.findEntry_eq (hd : dirs d) (name : Bytes) :
    findEntry (m.disk d) name = (findSlot (m.disk d) name).map (entryAt (m.disk d)) := by
  rw [findEntry]
  cases hf : findSlot (m.disk d) name with
  | none => rfl
  | some i =>
    obtain ⟨hi, hp⟩ := firstSlot_some hf
    rw [Bool.and_eq_true] at hp
    have hlow := (h.entries d i hd ⟨hi, hp.1⟩).lower
    have hz : (entryAt (m.disk d) i).dataSector ≠ 0 := by
      intro hz
      rw [hz] at hlow
      exact absurd hlow (by decide)
    rw [Option.bind_some, if_neg hz, Option.map_some]

end

/-- The slot that a store patches is the one that the lookup found. -/
theorem fileSlot_of_findSlot {buffer : Sector} (h0 : (0 : UInt8) ∉ name) (hne : name ≠ [])
    (hf : findSlot buffer name = some i) (ht : (entryAt buffer i).type = clawfsFile) :
    fileSlot buffer name = some i := by
  rw [findSlot, firstSlot_eq_some_iff] at hf
  obtain ⟨hi, hp, hfirst⟩ := hf
  rw [Bool.and_eq_true] at hp
  rw [fileSlot, firstSlot_eq_some_iff]
  refine ⟨hi, by simp [hp.2, ht], ?_⟩
  intro j hj
  cases hn : named buffer name j with
  | false => rfl
  | true =>
    have hu := used_of_holds h0 hne ((named_iff_holds buffer name j h0).mp hn)
    have hc := hfirst j hj
    rw [hu, hn] at hc
    cases hc

/-- Slots other than the edited one answer to a lookup as before. -/
theorem Edit.lookup_eq (he : Edit m m' dirs d i) (h : Sound m dirs depth) (name : Bytes)
    {x j : Nat} (hx : dirs x) (hj : j < slotCount) (hne : (x, j) ≠ (d, i)) :
    (used (m'.disk x) j && named (m'.disk x) name j) =
      (used (m.disk x) j && named (m.disk x) name j) := by
  have hs := he.sameSlot hx hj hne
  rw [← hs.used_eq]
  cases hu : used (m.disk x) j with
  | false => rfl
  | true => rw [hs.named_eq (h.entries x j hx ⟨hj, hu⟩).terminated name]

private theorem Sound.findSlot_put (h : Sound m dirs depth) (hput : Edit m m' dirs d i)
    (hnone : findSlot (m.disk d) name = none) (hu : used (m'.disk d) i = true)
    (hn : named (m'.disk d) name i = true) : findSlot (m'.disk d) name = some i := by
  rw [findSlot, firstSlot_eq_some_iff]
  refine ⟨hput.slot, by rw [hu, hn]; rfl, ?_⟩
  intro j hj
  have hjs : j < slotCount := Nat.lt_trans hj hput.slot
  have hne : (d, j) ≠ (d, i) := by
    intro heq
    cases heq
    exact Nat.lt_irrefl _ hj
  rw [hput.lookup_eq h name hput.dir hjs hne]
  exact firstSlot_none hnone j hjs

/-- Putting a file leaves the directories of the tree as they are. -/
theorem Sound.put_file (h : Sound m dirs depth) (hput : Put m m' dirs d i)
    (ht : (entryAt (m'.disk d) i).type = clawfsFile) : Sound m' dirs depth := by
  have hs := h.put hput
  have hn (x : Nat) : ¬ ((entryAt (m'.disk d) i).type = clawfsDirectory ∧
      x = (entryAt (m'.disk d) i).dataSector) := by
    rintro ⟨hd, -⟩
    rw [ht] at hd
    exact file_ne_directory hd
  have hdirs : dirsWith dirs (entryAt (m'.disk d) i) = dirs := by
    ext x
    simp only [dirsWith, hn x, or_false]
  have hdepth : depthWith depth (entryAt (m'.disk d) i) (depth d) = depth := by
    ext x
    rw [depthWith, if_neg (hn x)]
  rw [hdirs, hdepth] at hs
  exact hs

/-! ### Writing a file -/

section

variable (h : splitFilePath path = some (parentPath, fileName))

include h

private theorem splitFilePath_parts : (parentPath = if separatorBefore path path.length = 0 then [slash]
      else path.take (max 1 (separatorBefore path path.length - 1))) ∧
    parentPath.length < 128 ∧ fileName = path.drop (separatorBefore path path.length) ∧
      0 < fileName.length ∧ fileName.length < 28 := by
  rw [splitFilePath] at h
  split at h
  · cases h
  · simp only at h
    split at h
    · cases h
    · next hlen =>
      rw [← List.length_drop] at hlen
      split at h
      · next hzero =>
        cases h
        exact ⟨(if_pos hzero).symm, by decide, rfl, by omega, by omega⟩
      · next hsome =>
        have hlength : (if separatorBefore path path.length = 1 then 1
            else separatorBefore path path.length - 1) =
              max 1 (separatorBefore path path.length - 1) := by
          split <;> omega
        rw [hlength] at h
        split at h
        · cases h
        · cases h
          exact ⟨(if_neg hsome).symm, by rw [List.length_take]; omega, rfl, by omega, by omega⟩

/-- The parent part of a path fits the kernel's buffer. -/
theorem splitFilePath_parent : parentPath.length < 128 :=
  (splitFilePath_parts h).2.1

/-- The name part of a path is a short nonempty piece of it. -/
theorem splitFilePath_name : fileName ≠ [] ∧ fileName.length < 28 ∧ ∀ c ∈ fileName, c ∈ path := by
  obtain ⟨-, -, hdrop, hpos, hshort⟩ := splitFilePath_parts h
  refine ⟨List.length_pos_iff.mp hpos, hshort, ?_⟩
  intro c hc
  rw [hdrop] at hc
  exact List.mem_of_mem_drop hc

end

/-- What `clawfs_write_file` does in the directory `d` that holds the file. -/
inductive Stored (m : Machine) (dirs : Nat → Prop) (d : Nat) (name data : Bytes) :
    Bool × Machine → Prop
  | refused : Stored m dirs d name data (false, m)
  | created {mid : Machine} (i : Nat) (entry : Put m mid dirs d i) :
      Stored m dirs d name data (false, mid)
  | stored {mid : Machine} (i target next : Nat) (found : findSlot (mid.disk d) name = some i)
      (sound : ∃ depth, Sound mid dirs depth)
      (room : Target mid d i target next (sectorsFor data.length))
      (file : (entryAt (mid.disk d) i).type = clawfsFile)
      (entry : Put m (patchEntry mid d i target next data) dirs d i) :
      Stored m dirs d name data (true, patchEntry mid d i target next data)

private theorem Sound.storeContents_cases (h : Sound m dirs depth) (hd : dirs d) (h0 : (0 : UInt8) ∉ name)
    (hne : name ≠ []) (hlen : data.length ≤ clawfsMaxFileSize)
    (hf : findSlot (m.disk d) name = some i) :
    (storeContents d (m.disk d) name (entryAt (m.disk d) i) data m = (false, m) ∧
      storedSectors m.nextFreeSector (entryAt (m.disk d) i) data.length = ∅) ∨
    ∃ target next, Target m d i target next (sectorsFor data.length) ∧
      (entryAt (m.disk d) i).type = clawfsFile ∧
      Put m (patchEntry m d i target next data) dirs d i ∧
      storeContents d (m.disk d) name (entryAt (m.disk d) i) data m =
        (true, patchEntry m d i target next data) ∧
      owned (entryAt ((patchEntry m d i target next data).disk d) i) =
        storedSectors m.nextFreeSector (entryAt (m.disk d) i) data.length := by
  obtain ⟨hi, hp⟩ := firstSlot_some hf
  rw [Bool.and_eq_true] at hp
  have hl : Live m.disk d i := ⟨hi, hp.1⟩
  rw [storeContents_initialized m h.mounted.faultless h.mounted.initialized, storedSectors]
  by_cases hcond : (entryAt (m.disk d) i).type ≠ clawfsFile ∨
      clawfsMaxFileSize < (entryAt (m.disk d) i).entryCount
  · rw [if_pos hcond, if_pos hcond]
    exact .inl ⟨rfl, rfl⟩
  rw [if_neg hcond, if_neg hcond]
  rw [not_or, not_not] at hcond
  cases hc : targetFor m.nextFreeSector (entryAt (m.disk d) i) (sectorsFor data.length) with
  | none => exact .inl ⟨rfl, rfl⟩
  | some choice =>
    obtain ⟨target, next⟩ := choice
    have ht := h.target hd hl hcond.1 hc
    refine .inr ⟨target, next, ht, hcond.1, h.patchEntry_put hd hl hcond.1 hlen ht, ?_, ?_⟩
    · simp only [fileSlot_of_findSlot h0 hne hf hcond.1]
      rfl
    · rw [entryAt_patchEntry hi hcond.1 hlen ht, owned, ownedCount_file rfl]

/-- A patched slot is found under its name. -/
theorem Sound.findSlot_patchEntry (h : Sound m dirs depth) (hd : dirs d) (h0 : (0 : UInt8) ∉ name)
    (hshort : name.length < 28) (hf : findSlot (m.disk d) name = some i)
    (ht : (entryAt (m.disk d) i).type = clawfsFile) {target next : Nat}
    (hc : Target m d i target next (sectorsFor data.length)) :
    findSlot ((patchEntry m d i target next data).disk d) name = some i := by
  rw [findSlot, firstSlot_eq_some_iff] at hf ⊢
  obtain ⟨hi, hp, hfirst⟩ := hf
  rw [Bool.and_eq_true] at hp
  have hl : Live m.disk d i := ⟨hi, hp.1⟩
  have hedit := h.patchEntry_edit hd hl ht hc
  have hname (k : Nat) (hk : k < 28) :
      ((patchEntry m d i target next data).disk d).byte (entrySize * i + k) =
        (m.disk d).byte (entrySize * i + k) := by
    simp only [patchEntry, writeDisk_same]
    exact byte_patchSlot_name _ i _ _ k hi hk
  refine ⟨hi, ?_, ?_⟩
  · rw [Bool.and_eq_true]
    constructor
    · have hz := hname 0 (by decide)
      rw [Nat.add_zero] at hz
      rw [used, hz]
      exact hp.1
    · obtain ⟨hbytes, hend⟩ := (named_iff_holds _ _ _ h0).mp hp.2
      rw [named_iff_holds _ _ _ h0]
      constructor
      · intro k hk
        simp only [hname k (by omega)]
        exact hbytes k hk
      · simp only [hname _ hshort]
        exact hend
  · intro j hj
    have hne : (d, j) ≠ (d, i) := by
      intro heq
      cases heq
      exact Nat.lt_irrefl _ hj
    rw [hedit.lookup_eq h name hd (Nat.lt_trans hj hi) hne]
    exact hfirst j hj

private theorem sectorsFor_le {n : Nat} (h : n ≤ clawfsMaxFileSize) : sectorsFor n ≤ 2 ^ 16 := by
  rw [sectorsFor]
  simp only [clawfsMaxFileSize] at h
  split
  · decide
  · omega

/-- A store takes its sectors from the allocator at most once. -/
theorem storeContents_next (hf : m.faults = noFaults) (hi : m.allocatorInitialized = true)
    (parent : Nat) (buffer : Sector) (name : Bytes) (e : CLAWFSEntry)
    (hlen : data.length ≤ clawfsMaxFileSize) :
    ∃ extra, extra ≤ 2 ^ 16 ∧ (storeContents parent buffer name e data m).2.nextFreeSector =
      m.nextFreeSector + extra := by
  have hs := sectorsFor_le hlen
  rw [storeContents_initialized m hf hi]
  split
  · exact ⟨0, Nat.zero_le _, rfl⟩
  · have hnext (target next : Nat)
        (ht : targetFor m.nextFreeSector e (sectorsFor data.length) = some (target, next)) :
        ∃ extra, extra ≤ 2 ^ 16 ∧ next = m.nextFreeSector + extra := by
      rw [targetFor] at ht
      split at ht
      · cases ht
        exact ⟨0, Nat.zero_le _, rfl⟩
      · split at ht
        · cases ht
        · cases ht
          exact ⟨_, hs, rfl⟩
    cases ht : targetFor m.nextFreeSector e (sectorsFor data.length) with
    | none => exact ⟨0, Nat.zero_le _, rfl⟩
    | some p =>
      cases fileSlot buffer name with
      | none | some i => exact hnext p.1 p.2 ht

private theorem Sound.writeFile_cases (h : Sound m dirs depth) (path : CString)
    (hlen : data.length ≤ clawfsMaxFileSize)
    (hs : splitFilePath path.val = some (parentPath, fileName))
    (hd : lookupPath m.disk parentPath = d) (hdir : dirs d)
    (hroom : m.nextFreeSector + allocatedBy m (clawfsWriteFile path.val data m).2 < 2 ^ 32) :
    (∃ i, findSlot (m.disk d) fileName = some i ∧ clawfsWriteFile path.val data m =
        storeContents d (m.disk d) fileName (entryAt (m.disk d) i) data m) ∨
    (findSlot (m.disk d) fileName = none ∧ freeSlot (m.disk d) = none ∧
      clawfsWriteFile path.val data m = (false, m)) ∨
    ∃ i mid, findSlot (m.disk d) fileName = none ∧ freeSlot (m.disk d) = some i ∧
      mid = addEntry m d i fileName clawfsFile ∧ m.nextFreeSector + 1 < 2 ^ 32 ∧
      Put m mid dirs d i ∧ Sound mid dirs depth ∧ findSlot (mid.disk d) fileName = some i ∧
      clawfsWriteFile path.val data m =
        storeContents d (mid.disk d) fileName (entryAt (mid.disk d) i) data mid := by
  obtain ⟨hne, hshort, hsub⟩ := splitFilePath_name hs
  have h0 : (0 : UInt8) ∉ fileName := fun hc => path.property (hsub 0 hc)
  have hz : d ≠ 0 := by
    have hlow := (h.dir_bounds hdir).1
    rintro rfl
    exact absurd hlow (by decide)
  have hname := not_invalid ⟨hne, hshort⟩
  rw [clawfsWriteFile_mounted m h.mounted, if_neg (Nat.not_lt.mpr hlen)] at hroom ⊢
  simp only [hs, hd, if_neg hz, h.findEntry_eq hdir] at hroom ⊢
  cases hf : findSlot (m.disk d) fileName with
  | some i => exact .inl ⟨i, rfl, rfl⟩
  | none =>
    right
    simp only [hf, Option.map_none, clawfsCreateFileIn_mounted m h.mounted, if_neg hname, hd,
      if_neg hz] at hroom ⊢
    cases hfree : freeSlot (m.disk d) with
    | none =>
      simp only [h.findEntry_eq hdir, hf, Option.map_none]
      exact .inl ⟨trivial, trivial, trivial⟩
    | some i =>
      right
      simp only [hfree] at hroom ⊢
      -- The created file: its slot, and the state in which the contents are stored.
      generalize hmid : addEntry m d i fileName clawfsFile = mid at *
      have hnext : m.nextFreeSector + 1 < 2 ^ 32 := by
        have hmn : mid.nextFreeSector = (m.nextFreeSector + 1) % 2 ^ 32 := by
          rw [← hmid]
          rfl
        cases hfe : findEntry (mid.disk d) fileName with
        | none =>
          rw [hfe] at hroom
          exact no_wrap_of_room h.high (Nat.zero_le _) hmn hroom
        | some e =>
          rw [hfe] at hroom
          obtain ⟨extra, hextra, hsn⟩ := storeContents_next (m := mid)
            (by rw [← hmid]; exact h.mounted.faultless)
            (by rw [← hmid]; exact h.mounted.initialized) d (mid.disk d) fileName e hlen
          rw [hmn] at hsn
          exact no_wrap_of_room h.high hextra hsn hroom
      have hput : Put m mid dirs d i := by
        rw [← hmid]
        exact h.addEntry_put hdir hfree fileName hshort hne h0 (.inl rfl) hnext
      have htype : (entryAt (mid.disk d) i).type = clawfsFile := by
        rw [← hmid, entryAt_addEntry hput.slot fileName (by decide) h.high]
      have hsound := h.put_file hput htype
      have hslot : findSlot (mid.disk d) fileName = some i := by
        apply h.findSlot_put hput.edit hf hput.used
        rw [← hmid]
        exact named_addEntry m d hput.slot h0 hshort clawfsFile
      simp only [hsound.findEntry_eq hdir, hslot, Option.map_some]
      exact ⟨i, mid, trivial, rfl, hmid.symm, hnext, hput, hsound, hslot, rfl⟩

/-- Effect of `clawfs_write_file` when its parent is a directory. -/
theorem Sound.writeFile_stored (h : Sound m dirs depth) (path : CString)
    (hlen : data.length ≤ clawfsMaxFileSize)
    (hs : splitFilePath path.val = some (parentPath, fileName)) (hp : DirPath m.disk parentPath)
    (hz : lookupPath m.disk parentPath ≠ 0)
    (hroom : m.nextFreeSector + allocatedBy m (clawfsWriteFile path.val data m).2 < 2 ^ 32) :
    Stored m dirs (lookupPath m.disk parentPath) fileName data
      (clawfsWriteFile path.val data m) := by
  obtain ⟨hne, -, hsub⟩ := splitFilePath_name hs
  have h0 : (0 : UInt8) ∉ fileName := fun hc => path.property (hsub 0 hc)
  obtain ⟨hd, -⟩ := h.lookupPath_dir hp hz
  rcases h.writeFile_cases path hlen hs rfl hd hroom with
    ⟨i, hf, heq⟩ | ⟨-, -, heq⟩ | ⟨i, mid, -, -, -, -, hput, hsound, hslot, heq⟩
  · rw [heq]
    rcases h.storeContents_cases hd h0 hne hlen hf with
      ⟨heq, -⟩ | ⟨target, next, ht, hfile, hput, heq, -⟩
    · rw [heq]
      exact .refused
    · rw [heq]
      exact .stored i target next hf ⟨depth, h⟩ ht hfile hput
  · rw [heq]
    exact .refused
  · rw [heq]
    rcases hsound.storeContents_cases hd h0 hne hlen hslot with
      ⟨heq, -⟩ | ⟨target, next, ht, hfile, hput2, heq, -⟩
    · rw [heq]
      exact .created i hput
    · rw [heq]
      exact .stored i target next hslot ⟨depth, hsound⟩ ht hfile (hput.trans hput2)

private theorem sectorsFor_pos (length : Nat) : 0 < sectorsFor length := by
  rw [sectorsFor]
  split
  · exact Nat.one_pos
  · omega

private theorem owned_ne_empty (e : CLAWFSEntry) : owned e ≠ ∅ := by
  rw [owned, ne_eq, Ico_eq_empty_iff, not_not]
  exact Nat.lt_add_of_pos_right (ownedCount_pos e)

private theorem named_of_findSlot {buffer : Sector} (hf : findSlot buffer name = some i) :
    named buffer name i = true := by
  obtain ⟨-, hp⟩ := firstSlot_some hf
  rw [Bool.and_eq_true] at hp
  exact hp.2

private theorem Sound.writeFile_effect_dir (h : Sound m dirs depth) (path : CString)
    (hlen : data.length ≤ clawfsMaxFileSize)
    (hs : splitFilePath path.val = some (parentPath, fileName)) (hp : DirPath m.disk parentPath)
    (hz : lookupPath m.disk parentPath ≠ 0)
    (hroom : m.nextFreeSector + allocatedBy m (clawfsWriteFile path.val data m).2 < 2 ^ 32) :
    Effect m (clawfsWriteFile path.val data m).2 dirs depth (.writeFile path data) := by
  obtain ⟨hne, hshort, hsub⟩ := splitFilePath_name hs
  have h0 : (0 : UInt8) ∉ fileName := fun hc => path.property (hsub 0 hc)
  obtain ⟨hdir, hdep⟩ := h.lookupPath_dir hp hz
  have hname : (Op.writeFile path data).name = fileName := by
    rw [Op.name, hs]
    rfl
  have hlevel : (Op.writeFile path data).level = (pathTokens parentPath).length := by
    rw [Op.level, hs]
  have hsectors : (Op.writeFile path data).sectors m =
      match findEntry (m.disk (lookupPath m.disk parentPath)) fileName with
      | some e => storedSectors m.nextFreeSector e data.length
      | none =>
        if freeSlot (m.disk (lookupPath m.disk parentPath)) = none then ∅
        else freshSectors m.nextFreeSector data.length := by
    rw [Op.sectors, if_neg (Nat.not_lt.mpr hlen), hs]
    exact if_neg hz
  generalize hd : lookupPath m.disk parentPath = d at *
  rw [h.findEntry_eq hdir] at hsectors
  rcases h.writeFile_cases path hlen hs hd hdir hroom with
    ⟨i, hf, heq⟩ | ⟨hf, hfree, heq⟩ | ⟨i, mid, hf, hfree, hmid, hnext, hput, hsound, hslot, heq⟩
  · rw [hf] at hsectors
    rcases h.storeContents_cases hdir h0 hne hlen hf with
      ⟨hstore, hnone⟩ | ⟨target, next, ht, hfile, hput, hstore, hgiven⟩
    · rw [heq, hstore]
      exact .same rfl (hsectors.trans hnone)
    · rw [heq, hstore]
      refine .put d i hput (hdep.trans hlevel.symm) (hgiven.trans hsectors.symm) ?_ fun _ => ?_
      · rw [hname]
        exact named_of_findSlot (h.findSlot_patchEntry hdir h0 hshort hf hfile ht)
      · rw [hname]
        exact .inr hf
  · rw [hf, Option.map_none, hfree] at hsectors
    rw [heq]
    exact .same rfl hsectors
  · have hnot : freeSlot (m.disk d) ≠ none := by
      rw [hfree]
      exact Option.some_ne_none i
    rw [hf, Option.map_none] at hsectors
    simp only [if_neg hnot, freshSectors] at hsectors
    have hfresh : findSlot (m.disk d) (Op.writeFile path data).name = none := by
      rw [hname, hf]
    -- The file was made in the next sector, and its contents are stored from there.
    have hentry : entryAt (mid.disk d) i = ⟨clawfsFile, m.nextFreeSector, 0⟩ := by
      rw [hmid, entryAt_addEntry hput.slot fileName (by decide) h.high]
    have hmidNext : mid.nextFreeSector = m.nextFreeSector + 1 := by
      rw [hmid]
      exact Nat.mod_eq_of_lt hnext
    have hstored := hsound.storeContents_cases hdir h0 hne hlen hslot
    rw [storedSectors, hentry, hmidNext, if_neg (by simp)] at hstored
    rw [heq, hentry]
    rcases hstored with ⟨hstore, hnone⟩ | ⟨target, next, ht, hfile, hput2, hstore, hgiven⟩
    · rw [hstore]
      refine .put d i hput (hdep.trans hlevel.symm) ?_ ?_ fun _ => .inl hfresh
      · rw [hsectors, hentry, owned, ownedCount_file rfl]
        cases hc : targetFor (m.nextFreeSector + 1) ⟨clawfsFile, m.nextFreeSector, 0⟩
            (sectorsFor data.length) with
        | none => rfl
        | some choice =>
          rw [hc, Ico_eq_empty_iff] at hnone
          exact absurd (Nat.lt_add_of_pos_right (sectorsFor_pos _)) hnone
      · rw [hname]
        exact named_of_findSlot hslot
    · rw [hstore]
      refine .put d i (hput.trans hput2) (hdep.trans hlevel.symm) ?_ ?_ fun _ => .inl hfresh
      · cases hc : targetFor (m.nextFreeSector + 1) ⟨clawfsFile, m.nextFreeSector, 0⟩
            (sectorsFor data.length) with
        | none =>
          rw [hc] at hgiven
          exact absurd hgiven (owned_ne_empty _)
        | some choice =>
          rw [hc] at hgiven hsectors
          exact hgiven.trans hsectors.symm
      · rw [hname]
        exact named_of_findSlot
          (hsound.findSlot_patchEntry hdir h0 hshort hslot (by rw [hentry]) ht)

/-- What a valid operation does. -/
theorem Sound.effect (h : Sound m dirs depth) (op : Op) (hv : op.Valid m.disk)
    (hroom : m.nextFreeSector + allocatedBy m (op.run m) < 2 ^ 32) :
    Effect m (op.run m) dirs depth op := by
  cases op with
  | mkdir parentPath dirName => exact h.mkdir_effect parentPath dirName hv hroom
  | createFileIn path name => exact h.createFileIn_effect path name hv hroom
  | rm parentPath name type =>
    rcases h.rm_drop parentPath name type hv with heq | ⟨d, i, -, -, -, hdrop⟩
    · exact .same heq rfl
    · exact .drop d i hdrop rfl
  | writeFile path data =>
    by_cases hlen : clawfsMaxFileSize < data.length
    · refine .same ?_ (if_pos hlen)
      rw [Op.run, clawfsWriteFile_mounted m h.mounted, if_pos hlen]
    cases hs : splitFilePath path.val with
    | none =>
      refine .same ?_ ?_
      · rw [Op.run, clawfsWriteFile_mounted m h.mounted, if_neg hlen, hs]
      · rw [Op.sectors, if_neg hlen, hs]
    | some parts =>
      obtain ⟨parentPath, fileName⟩ := parts
      by_cases hz : lookupPath m.disk parentPath = 0
      · refine .same ?_ ?_
        · rw [Op.run, clawfsWriteFile_mounted m h.mounted, if_neg hlen, hs]
          simp only [if_pos hz]
        · rw [Op.sectors, if_neg hlen, hs]
          exact if_pos hz
      · exact h.writeFile_effect_dir path (Nat.not_lt.mp hlen) hs (hv parentPath fileName hs) hz
          hroom

/-- Every directory with an entry lies above depth `n`. -/
def Bounded (m : Machine) (dirs : Nat → Prop) (depth : Nat → Nat) (n : Nat) : Prop :=
  ∀ d i, dirs d → Live m.disk d i → depth d < n

/-- Putting an entry above depth `n` keeps the bound. -/
theorem Put.bounded (hput : Put m m' dirs d i) (h : Sound m dirs depth) {n : Nat}
    (hb : Bounded m dirs depth n) (hd : depth d < n) :
    Bounded m' (dirsWith dirs (entryAt (m'.disk d) i))
      (depthWith depth (entryAt (m'.disk d) i) (depth d)) n := by
  intro x j hx hl
  rcases hput.live_cases hx hl with ⟨rfl, rfl⟩ | ⟨hxo, hlo, -⟩
  · rw [hput.depth_eq h hput.dir]
    exact hd
  · rw [hput.depth_eq h hxo]
    exact hb x j hxo hlo

/-- An operation keeps the invariant, and the bound when it puts an entry above it. -/
theorem Sound.after (h : Sound m dirs depth) {op : Op} (he : Effect m m' dirs depth op) :
    ∃ dirs' depth', Sound m' dirs' depth' ∧
      ∀ n, op.level < n → Bounded m dirs depth n → Bounded m' dirs' depth' n := by
  cases he with
  | same unchanged =>
    subst unchanged
    exact ⟨dirs, depth, h, fun _ _ hb => hb⟩
  | put d i entry deep =>
    refine ⟨_, _, h.put entry, ?_⟩
    intro n hn hb
    exact entry.bounded h hb (deep ▸ hn)
  | drop d i entry =>
    refine ⟨_, _, h.drop entry, ?_⟩
    intro n _ hb x j hx hl
    exact hb x j hx.1 (entry.live_cases hx.1 hl).1

end NasuaOS.ClawFS
