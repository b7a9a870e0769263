import NasuaOS.Fat.Walks

/-!
# Long names

A long name is kept in slots of 13 characters before the slot of its entry, the last part first
(`fat.cpp:174–324`). The reader puts the parts together again, wherever the slots lie in the
directory, and a listing shows the name.
-/

namespace NasuaOS.Fat

open Base Libc List

variable {image : Store} {b : Bpb} {name : Bytes}

/-- Slots that a long name takes. -/
def partCount (name : Bytes) : Nat := (name.length + 12) / 13

/-- Unit `k` of a stored name: a character, the terminator, or padding. -/
def nameUnit (name : Bytes) (k : Nat) : Nat :=
  if k < name.length then (name.getD k 0).toNat else if k = name.length then 0 else 0xFFFF

/-- The slot at `entry` holds part `order` of a long name; the last part is marked. -/
structure PartAt (image : Store) (name : Bytes) (order entry : Nat) : Prop where
  first : (image.byte entry).toNat = if order = partCount name then 64 + order else order
  attributes : image.byte (entry + 11) = 15
  units : ∀ i < 13, leNat image.byte (entry + longNameOffsets.getD i 0) 2 =
    nameUnit name ((order - 1) * 13 + i)

/-- The slots hold the parts of a long name from number `order` down to 1. -/
def PartsAt (image : Store) (name : Bytes) : Nat → List Nat → Prop
  | 0, [] => True
  | order + 1, entry :: rest => PartAt image name (order + 1) entry ∧ PartsAt image name order rest
  | _, _ => False

/-- The slot at `entry` is that of a file or a directory. -/
structure EntryAt (image : Store) (entry : Nat) : Prop where
  used : image.byte entry ≠ 0 ∧ image.byte entry ≠ 0xE5
  attributes : (image.byte (entry + 11)).toNat / 8 % 2 = 0

/-- A name that long-name slots can hold here. -/
structure LongAscii (name : Bytes) : Prop where
  nonempty : name ≠ []
  short : name.length < fatMaxName
  ascii : ∀ c ∈ name, 0 < c ∧ c < 128

/-- The characters of a name from `start` on. -/
def charsFrom (name : Bytes) (start k : Nat) : UInt8 := if start ≤ k then name.getD k 0 else 0

private theorem eq_charsFrom {chars : Nat → UInt8} {start index count : Nat}
    (hstart : start ≤ index) (hdone : name.length ≤ index ∨ count = 0) (hchars : ∀ k, chars k =
      if start ≤ k ∧ k < index ∨ index + count ≤ k then name.getD k 0 else 0) :
    chars = charsFrom name start := by
  funext k
  rw [hchars, charsFrom]
  by_cases hk : name.length ≤ k
  · rw [getD_eq_default _ _ hk, ite_self, ite_self]
  · have hiff : (start ≤ k ∧ k < index ∨ index + count ≤ k) ↔ start ≤ k := by omega
    rw [if_congr hiff rfl rfl]

section

variable (hname : LongAscii name)

include hname

private theorem LongAscii.unit {k : Nat} (hk : k < name.length) :
    0 < nameUnit name k ∧ nameUnit name k < 128 ∧
      UInt8.ofNat (nameUnit name k) = name.getD k 0 := by
  have hmem : name.getD k 0 ∈ name := by
    rw [getD_eq_getElem _ _ hk]
    exact getElem_mem hk
  obtain ⟨hpos, hlt⟩ := hname.ascii _ hmem
  rw [nameUnit, if_pos hk]
  exact ⟨UInt8.lt_iff_toNat_lt.mp hpos, UInt8.lt_iff_toNat_lt.mp hlt, UInt8.ofNat_toNat⟩

private theorem longNameWith_part {entry start : Nat} (offsets : List Nat) (index : Nat)
    (hstart : start ≤ index)
    (hunits : ∀ i < offsets.length, leNat image.byte (entry + offsets.getD i 0) 2 =
      nameUnit name (index + i)) {chars : Nat → UInt8}
    (hchars : ∀ k, chars k = if start ≤ k ∧ k < index ∨ index + offsets.length ≤ k then
      name.getD k 0 else 0) :
    longNameWith image entry offsets index chars = charsFrom name start := by
  induction offsets generalizing index chars with
  | nil => exact eq_charsFrom hstart (.inr rfl) hchars
  | cons offset rest ih =>
    have hvalue := hunits 0 (by simp)
    rw [getD_cons_zero, Nat.add_zero] at hvalue
    rw [longNameWith]
    rw [hvalue]
    by_cases hlen : index < name.length
    · obtain ⟨hpos, hlt, hchar⟩ := hname.unit hlen
      have hshort : name.length < 128 := hname.short
      rw [if_neg (by change ¬index ≥ 127; omega), if_neg (by omega), if_pos hlt, hchar]
      apply ih (index + 1) (by omega)
      · intro i hi
        have hunit := hunits (i + 1) (by simpa using hi)
        rwa [getD_cons_succ, Nat.add_comm i 1, ← Nat.add_assoc] at hunit
      · intro k
        rw [length_cons] at hchars
        by_cases hk : k = index
        · rw [if_pos hk, if_pos (by omega), hk]
        · rw [if_neg hk, hchars]
          apply if_congr _ rfl rfl
          omega
    · -- The terminator and the padding stand where no later part has put a character.
      have hdone := eq_charsFrom hstart (.inl (Nat.le_of_not_lt hlen)) hchars
      have hzero : chars index = 0 := by
        rw [hchars, if_neg (by rw [length_cons]; omega)]
      have hunit : nameUnit name index = 0 ∨ nameUnit name index = 0xFFFF := by
        rw [nameUnit, if_neg hlen]
        split
        · exact .inl rfl
        · exact .inr rfl
      rw [if_pos hunit, if_pos hzero, ite_self, hdone]

private theorem slotContent_part {order entry : Nat} (hle : order + 1 ≤ partCount name)
    (h : PartAt image name (order + 1) entry) {long : LongName}
    (hlong : order + 1 = partCount name ∨ long.chars = charsFrom name ((order + 1) * 13)) :
    slotContent image entry long = .skip ⟨charsFrom name (order * 13), true⟩ := by
  have hshort : name.length < 128 := hname.short
  have hfirst := h.first
  rw [partCount] at hle hlong hfirst
  have hmod : (image.byte entry).toNat % 32 = order + 1 := by
    split at hfirst <;> omega
  have hzero : image.byte entry ≠ 0 := by
    intro hb
    rw [hb] at hmod
    change 0 = _ at hmod
    omega
  have hdeleted : image.byte entry ≠ 0xE5 := by
    intro hb
    rw [hb] at hfirst
    change 229 = _ at hfirst
    split at hfirst <;> omega
  have hchars : (if (image.byte entry).toNat / 64 % 2 = 1 then fun _ => 0 else long.chars) =
      charsFrom name ((order + 1) * 13) := by
    split at hfirst
    · rw [if_pos (by omega)]
      funext k
      rw [charsFrom]
      split
      · rw [getD_eq_default _ _ (by omega)]
      · rfl
    · next hlast =>
      rw [if_neg (by omega)]
      exact hlong.resolve_left hlast
  have hpart : longNameWith image entry longNameOffsets (order * 13)
      (charsFrom name ((order + 1) * 13)) = charsFrom name (order * 13) := by
    apply longNameWith_part hname longNameOffsets (order * 13) le_rfl h.units
    intro k
    rw [charsFrom]
    apply if_congr _ rfl rfl
    change _ ↔ _ ∨ order * 13 + 13 ≤ k
    omega
  rw [slotContent]
  rw [if_neg hzero, if_neg hdeleted, if_pos (by rw [h.attributes]; rfl), hmod, hchars,
    if_pos (Nat.le_add_left 1 order), Nat.add_sub_cancel, hpart]

private theorem entriesOf_parts {order : Nat} {parts : List Nat} (hle : order ≤ partCount name)
    (h : PartsAt image name order parts) (rest : List Nat) :
    entriesOf image (parts ++ rest) ⟨charsFrom name (order * 13), true⟩ =
      entriesOf image rest ⟨charsFrom name 0, true⟩ := by
  induction order generalizing parts with
  | zero =>
    cases parts with
    | nil => rw [nil_append, Nat.zero_mul]
    | cons entry parts => cases h
  | succ order ih =>
    cases parts with
    | nil => cases h
    | cons entry parts =>
      rw [cons_append, entriesOf, slotContent_part hname hle h.1 (.inr rfl)]
      exact ih (Nat.le_of_succ_le hle) h.2

private theorem LongAscii.text_eq : (⟨charsFrom name 0, true⟩ : LongName).text = name := by
  have hchars : charsFrom name 0 = fun k => name.getD k 0 := by
    funext k
    exact if_pos (Nat.zero_le k)
  rw [LongName.text, hchars]
  apply cstring_getD (Nat.le_of_lt_succ hname.short)
  intro hmem
  exact absurd (hname.ascii 0 hmem).1 (by decide)

end

private theorem slotContent_entry {entry : Nat} (h : EntryAt image entry) (long : LongName) :
    slotContent image entry long = .entry (slotEntry image entry
      (if long.hasLongName = true then long.text else shortName image entry)) := by
  have hattr := h.attributes
  rw [slotContent]
  rw [if_neg h.used.1, if_neg h.used.2, if_neg (by omega), if_neg (by omega)]

private theorem entriesOf_long (hname : LongAscii name) {parts : List Nat} {short : Nat}
    (hparts : PartsAt image name (partCount name) parts) (hshort : EntryAt image short)
    (after : List Nat) (long : LongName) : ∃ more, entriesOf image (parts ++ short :: after) long =
      slotEntry image short name :: more := by
  obtain ⟨order, horder⟩ : ∃ order, partCount name = order + 1 := by
    have hpos := length_pos_iff.mpr hname.nonempty
    exact ⟨partCount name - 1, by rw [partCount]; omega⟩
  rw [horder] at hparts
  cases parts with
  | nil => cases hparts
  | cons entry parts =>
    rw [cons_append, entriesOf, slotContent_part hname horder.ge hparts.1 (.inl horder.symm)]
    dsimp only
    rw [entriesOf_parts hname (Nat.le_of_succ_le horder.ge) hparts.2, entriesOf,
      slotContent_entry hshort, if_pos rfl, hname.text_eq]
    exact ⟨_, rfl⟩

private theorem entriesOf_append {before : List Nat} (h : ∀ entry ∈ before, image.byte entry ≠ 0)
    (long : LongName) : ∃ long', ∀ rest, entriesOf image (before ++ rest) long =
      entriesOf image before long ++ entriesOf image rest long' := by
  induction before generalizing long with
  | nil => exact ⟨long, fun _ => rfl⟩
  | cons entry before ih =>
    have ih := ih fun other hmem => h other (mem_cons_of_mem _ hmem)
    cases hcontent : slotContent image entry long with
    | last =>
      rw [slotContent] at hcontent
      split_ifs at hcontent with hzero
      exact absurd hzero (h entry mem_cons_self)
    | skip long' =>
      obtain ⟨long'', hrest⟩ := ih long'
      refine ⟨long'', fun rest => ?_⟩
      rw [cons_append, entriesOf, entriesOf, hcontent]
      exact hrest rest
    | entry info =>
      obtain ⟨long'', hrest⟩ := ih { long with hasLongName := false }
      refine ⟨long'', fun rest => ?_⟩
      rw [cons_append, entriesOf, entriesOf, hcontent]
      exact congrArg (info :: ·) (hrest rest)

/-- The entries that a listing shows. -/
def listed (entries : List EntryInfo) : List EntryInfo := entries.filter fun e => ¬DotName e.name

private theorem foldEntries_listing {maxEntries : Nat} (entries shown : List EntryInfo)
    (hroom : shown.length < maxEntries) : foldEntries (listingCallback maxEntries) entries shown =
      shown ++ (listed entries).take (maxEntries - shown.length) := by
  induction entries generalizing shown with
  | nil => simp [foldEntries, listed]
  | cons info rest ih =>
    have hcall : listingCallback maxEntries info shown = if DotName info.name then (shown, true)
        else (shown ++ [info], decide (shown.length + 1 < maxEntries)) := rfl
    rw [foldEntries, hcall]
    by_cases hdot : DotName info.name
    · have hskip : listed (info :: rest) = listed rest := by simp [listed, hdot]
      rw [if_pos hdot, hskip]
      exact ih shown hroom
    · have hshow : listed (info :: rest) = info :: listed rest := by simp [listed, hdot]
      obtain ⟨left, hleft⟩ := Nat.exists_eq_add_of_lt hroom
      have hsub : maxEntries - shown.length = left + 1 := by omega
      rw [if_neg hdot, hshow, hsub, take_succ_cons]
      by_cases hmore : shown.length + 1 < maxEntries
      · rw [decide_eq_true hmore]
        dsimp only
        rw [ih _ (by simpa using hmore), length_append, append_assoc]
        congr 2
        simp
        omega
      · rw [decide_eq_false hmore, show left = 0 by omega, take_zero]

/-- On a well-formed volume a listing shows an entry under its long name, wherever its slots lie in
the directory, if no unused slot comes before and the listing has room; `.` and `..` are not
shown. -/
theorem long_name_listed (hwf : WellFormed image b) {fuel : Nat} (hfuel : b.clusterCount < fuel)
    {path : Bytes} {info : EntryInfo} {directory : Directory}
    (hpath : resolvePath fuel (b.volume image) path = .ok (some (info, directory)))
    (hinfo : info.directory = true) {before parts after : List Nat} {short : Nat}
    (hslots : SlotsOf image b directory (before ++ (parts ++ short :: after)))
    (hbefore : ∀ entry ∈ before, image.byte entry ≠ 0) (hname : LongAscii name)
    (hdot : ¬DotName name) (hparts : PartsAt image name (partCount name) parts)
    (hshort : EntryAt image short) {maxEntries : Nat}
    (hroom : (listed (entriesOf image before LongName.none)).length < maxEntries) :
    ∃ more, fatListDirectory fuel (b.volume image) path maxEntries =
      .ok (listed (entriesOf image before LongName.none) ++
        slotEntry image short name :: more) := by
  obtain ⟨long, hlong⟩ := entriesOf_append hbefore LongName.none
  obtain ⟨more, hmore⟩ := entriesOf_long hname hparts hshort after long
  have hlisted : listed (entriesOf image (before ++ (parts ++ short :: after)) LongName.none) =
      listed (entriesOf image before LongName.none) ++
        slotEntry image short name :: listed more := by
    rw [hlong, hmore, listed, filter_append, ← listed]
    congr 1
    exact filter_cons_of_pos (decide_eq_true hdot)
  rw [fatListDirectory, if_neg (by omega), hpath]
  change ∃ more, (if info.directory = false then _ else _) = _
  rw [if_neg (by simp [hinfo]), hwf.iterateDirectory_eq _ hslots hfuel,
    foldEntries_listing _ _ (by rw [length_nil]; omega), hlisted, nil_append,
    take_append, take_of_length_le (by rw [length_nil]; omega)]
  obtain ⟨left, hleft⟩ := Nat.exists_eq_add_of_lt hroom
  rw [hleft, length_nil, Nat.sub_zero, Nat.add_assoc, Nat.add_sub_cancel_left,
    take_succ_cons]
  exact ⟨_, rfl⟩

/-- Bytes of the slot of a part of a long name at `entry`. -/
def slotOfPart (entry : Nat) (first : UInt8) (name : Bytes) (order : Nat) :
    List (Nat × UInt8) :=
  (entry, first) :: (entry + 11, 15) :: (range 13).flatMap fun i =>
    let unit := nameUnit name ((order - 1) * 13 + i)
    let offset := entry + longNameOffsets.getD i 0
    [(offset, leByte unit 0), (offset + 1, leByte unit 1)]

/-- `manyletters.txt`. -/
def longText : Bytes :=
  [109, 97, 110, 121, 108, 101, 116, 116, 101, 114, 115, 46, 116, 120, 116]

/-- A FAT12 volume whose root directory holds a file named `manyletters.txt` and one named `.`. -/
def longNames : Store :=
  imageOf 2048 ([(12, 2), (13, 1), (14, 1), (16, 1), (17, 16), (19, 4), (22, 1)] ++
    slotOfPart 1024 66 longText 2 ++ slotOfPart 1056 1 longText 1 ++ slotOfFileA 1088 2 5 ++
    slotOfPart 1120 65 [46] 1 ++ slotOfFileA 1152 2 5)

/-- The boot sector of `longNames`. -/
def longNamesBpb : Bpb := ⟨512, 1, 1, 1, 16, 4, 1, 0⟩

private theorem wellFormed_longNames : WellFormed longNames longNamesBpb := by
  decide

/-- The root directory of `longNames` is listed with the long name. -/
theorem long_name_listed_longNames :
    WellFormed longNames longNamesBpb ∧ PartsAt longNames longText 2 [1024, 1056] ∧
      ∃ more, fatListDirectory 2 (longNamesBpb.volume longNames) [slash] 4 =
        .ok (⟨longText, 5, 2, false⟩ :: more) := by
  have hparts : PartsAt longNames longText 2 [1024, 1056] :=
    ⟨⟨by decide, by decide, by decide⟩,
      ⟨by decide, by decide, by decide⟩, trivial⟩
  have hslots : SlotsOf longNames longNamesBpb ⟨true, 0⟩
      ([] ++ ([1024, 1056] ++ 1088 :: (rootSlots longNamesBpb).drop 3)) := by
    rw [SlotsOf, if_pos rfl]
    decide
  have hroot : resolvePath 2 (longNamesBpb.volume longNames) [slash] =
      .ok (some (rootInfo (longNamesBpb.volume longNames), ⟨true, 0⟩)) := by decide
  refine ⟨wellFormed_longNames, hparts, ?_⟩
  exact long_name_listed wellFormed_longNames (by decide) hroot rfl hslots
    (List.forall_mem_nil _)
    ⟨by decide, by decide, by decide +kernel⟩ (by decide) hparts
    ⟨by decide, by decide⟩ (by decide)

/-- A file with the long name `.` is not listed. -/
theorem dot_not_listed :
    WellFormed longNames longNamesBpb ∧ LongAscii [46] ∧ PartsAt longNames [46] 1 [1120] ∧
      EntryAt longNames 1152 ∧
      fatListDirectory 2 (longNamesBpb.volume longNames) [slash] 16 =
        .ok [⟨longText, 5, 2, false⟩] :=
  ⟨wellFormed_longNames, ⟨by decide, by decide, by decide +kernel⟩,
    ⟨⟨by decide, by decide, by decide⟩, trivial⟩,
    ⟨by decide, by decide⟩, by decide +kernel⟩

end NasuaOS.Fat
