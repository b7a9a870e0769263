import NasuaOS.Fat.Table

/-!
# The entries of a directory

A directory is a sequence of 32-byte slots. `entriesOf` reads the sequence off the image without any
check of bounds; a walk of the reader over slots that lie in the image hands exactly these entries
to its callback, in this order.
-/

namespace NasuaOS.Fat

open Base Libc List

variable {image : Store} {b : Bpb} {σ : Type}

/-- Bytes of a name field before the first space, in lower case. -/
def nameField (image : Store) (off count : Nat) : Bytes :=
  ((image.slice off count).takeWhile (· != 32)).map toLower

/-- The extension of a slot after a dot, if there is one. -/
def dotExtension (image : Store) (entry : Nat) : Bytes :=
  if nameField image (entry + 8) 3 = [] then [] else 46 :: nameField image (entry + 8) 3

/-- Name and extension of a slot. -/
def shortName (image : Store) (entry : Nat) : Bytes :=
  (cstring (nameField image entry 8 ++ dotExtension image entry)).val

/-- The long name after the characters of one more slot. -/
def longNameWith (image : Store) (entry : Nat) :
    List Nat → Nat → (Nat → UInt8) → Nat → UInt8
  | [], _, name => name
  | offset :: rest, index, name =>
    if index ≥ fatMaxName - 1 then name
    else
      let value := leNat image.byte (entry + offset) 2
      if value = 0 ∨ value = 0xFFFF then
        if name index = 0 then name else longNameWith image entry rest (index + 1) name
      else
        longNameWith image entry rest (index + 1) fun k =>
          if k = index then (if value < 128 then UInt8.ofNat value else 63) else name k

/-- The entry that a slot describes, under a given name. -/
def slotEntry (image : Store) (entry : Nat) (name : Bytes) : EntryInfo where
  name := name
  size := leNat image.byte (entry + 28) 4
  firstCluster := leNat image.byte (entry + 20) 2 * 2 ^ 16 + leNat image.byte (entry + 26) 2
  directory := decide ((image.byte (entry + 11)).toNat / 16 % 2 = 1)

/-- What a slot means after the long name collected so far. -/
def slotContent (image : Store) (entry : Nat) (long : LongName) : SlotContent :=
  let first := image.byte entry
  let attributes := (image.byte (entry + 11)).toNat
  if first = 0 then .last
  else if first = 0xE5 then .skip { long with hasLongName := false }
  else if attributes % 16 = 15 then
    let chars := if first.toNat / 64 % 2 = 1 then fun _ => 0 else long.chars
    if first.toNat % 32 ≥ 1 then
      .skip ⟨longNameWith image entry longNameOffsets ((first.toNat % 32 - 1) * 13) chars, true⟩
    else .skip { long with chars := chars }
  else if attributes / 8 % 2 = 1 then .skip { long with hasLongName := false }
  else
    .entry (slotEntry image entry
      (if long.hasLongName = true then long.text else shortName image entry))

/-- The entries of a sequence of slots, up to the first unused slot. -/
def entriesOf (image : Store) : List Nat → LongName → List EntryInfo
  | [], _ => []
  | entry :: rest, long =>
    match slotContent image entry long with
    | .last => []
    | .skip long => entriesOf image rest long
    | .entry info => info :: entriesOf image rest { long with hasLongName := false }

/-- A callback meets entries until it has enough. -/
def foldEntries (callback : Callback σ) : List EntryInfo → σ → σ
  | [], data => data
  | info :: rest, data =>
    match callback info data with
    | (data, false) => data
    | (data, true) => foldEntries callback rest data

private theorem readNameField_eq (count : Nat) {off : Nat} (h : off + count ≤ image.size) :
    readNameField image off count = .ok (nameField image off count) := by
  induction count generalizing off with
  | zero => rfl
  | succ count ih =>
    have hslice : image.slice off (count + 1) = image.byte off :: image.slice (off + 1) count := by
      rw [Nat.add_comm count 1, Store.slice_append]
      rfl
    rw [readNameField, Store.get_eq (by omega), nameField, hslice, ih (by omega)]
    change (if image.byte off = 32 then _ else _) = _
    split
    · next hspace =>
      rw [hspace]
      rfl
    · next hspace =>
      have htake : (image.byte off != 32) = true := bne_iff_ne.mpr hspace
      rw [takeWhile_cons_of_pos (p := (· != 32)) htake]
      rfl

variable {entry : Nat}

private theorem shortNameToString_eq (h : entry + 32 ≤ image.size) :
    shortNameToString image entry = .ok (shortName image entry) := by
  rw [shortNameToString, readNameField_eq 8 (by omega), Store.get_eq (by omega),
    readNameField_eq 3 (by omega)]
  change (if image.byte (entry + 8) = 32 then _ else _) = _
  have hslice : image.slice (entry + 8) 3 =
      image.byte (entry + 8) :: image.slice (entry + 8 + 1) 2 := by
    rw [show 3 = 1 + 2 by rfl, Store.slice_append]
    rfl
  have hext : nameField image (entry + 8) 3 = [] ↔ image.byte (entry + 8) = 32 := by
    rw [nameField, map_eq_nil_iff, hslice]
    by_cases hspace : image.byte (entry + 8) = 32
    · simp [hspace]
    · simp [hspace]
  split
  · next hspace =>
    have hdot : dotExtension image entry = [] := if_pos (hext.mpr hspace)
    rw [shortName, hdot, append_nil]
    rfl
  · next hspace =>
    have hdot : dotExtension image entry = 46 :: nameField image (entry + 8) 3 :=
      if_neg fun hnil => hspace (hext.mp hnil)
    rw [shortName, hdot]
    rfl

private theorem longNameLoop_eq (h : entry + 32 ≤ image.size) (offsets : List Nat)
    (hoff : ∀ o ∈ offsets, o + 2 ≤ 32) (index : Nat) (name : Nat → UInt8) :
    longNameLoop image entry offsets index name =
      .ok (longNameWith image entry offsets index name) := by
  induction offsets generalizing index name with
  | nil => rfl
  | cons offset rest ih =>
    have ho := hoff offset (by simp)
    have ih := ih fun o hmem => hoff o (by simp [hmem])
    rw [longNameLoop, longNameWith]
    split
    · rfl
    · rw [read16, Store.word_eq (by omega)]
      change (if leNat image.byte (entry + offset) 2 = 0 ∨ _ then _ else _) = _
      dsimp only
      split
      · split
        · rfl
        · exact ih _ _
      · exact ih _ _

private theorem readSlot_eq (h : entry + 32 ≤ image.size) (long : LongName) :
    readSlot image entry long = .ok (slotContent image entry long) := by
  have hname : entryName image entry long =
      .ok (if long.hasLongName = true then long.text else shortName image entry) := by
    rw [entryName, shortNameToString_eq h]
    split <;> rfl
  rw [readSlot, slotContent, Store.get_eq (by omega), Store.get_eq (by omega), hname, read32, read16,
    read16, Store.word_eq (by omega), Store.word_eq (by omega), Store.word_eq (by omega)]
  change (if image.byte entry = 0 then _ else _) = _
  split
  · rfl
  split
  · rfl
  change (if (image.byte (entry + 11)).toNat % 16 = 15 then _ else _) = _
  split
  · split
    · rw [longNameChunk, longNameLoop_eq h _ (by decide)]
      rfl
    · rfl
  split
  · rfl
  · rfl

private theorem visitSlots_eq (callback : Callback σ) {slots : List Nat}
    (h : ∀ entry ∈ slots, entry + 32 ≤ image.size) (long : LongName) (data : σ) :
    Prod.fst <$> visitSlots image callback slots long data =
      .ok (foldEntries callback (entriesOf image slots long) data) := by
  induction slots generalizing long data with
  | nil => rfl
  | cons entry rest ih =>
    have ih := ih fun other hmem => h other (by simp [hmem])
    rw [visitSlots, readSlot_eq (h entry (by simp)), entriesOf]
    cases slotContent image entry long with
    | last => rfl
    | skip long => exact ih long data
    | entry info =>
      rw [foldEntries]
      change Prod.fst <$> (match callback info data with | (_, false) => _ | (_, true) => _) = _
      split
      · rfl
      · exact ih _ _

private theorem visitSlots_append (callback : Callback σ) (first second : List Nat)
    (long : LongName) (data : σ) :
    visitSlots image callback (first ++ second) long data =
      visitSlots image callback first long data >>= fun r =>
        match r with
        | (data, none) => .ok (data, none)
        | (data, some long) => visitSlots image callback second long data := by
  induction first generalizing long data with
  | nil => rfl
  | cons entry rest ih =>
    rw [cons_append, visitSlots, visitSlots]
    cases readSlot image entry long with
    | error stop => rfl
    | ok content =>
      cases content with
      | last => rfl
      | skip long => exact ih long data
      | entry info =>
        change (match callback info data with | (_, false) => _ | (_, true) => _) =
          (match callback info data with | (_, false) => _ | (_, true) => _) >>= _
        split
        · rfl
        · exact ih _ _

/-- Slots of `count` bytes from `start` on. -/
def slotsFrom (start count : Nat) : List Nat := (range (count / 32)).map fun k => start + 32 * k

/-- Slots of the fixed root directory. -/
def rootSlots (b : Bpb) : List Nat :=
  slotsFrom (b.rootStart * b.bytesPerSector) (b.rootLength * b.bytesPerSector)

/-- Slots of a cluster. -/
def clusterSlots (b : Bpb) (cluster : Nat) : List Nat :=
  slotsFrom (b.clusterStart cluster) b.clusterBytes

/-- The slots of a directory: the fixed root region, or the clusters of a chain that ends. -/
def SlotsOf (image : Store) (b : Bpb) (directory : Directory) (slots : List Nat) : Prop :=
  if directory.fixedRoot = true then slots = rootSlots b
  else ∃ cs stop, Links image b directory.cluster cs stop ∧ endMark b.type ≤ stop ∧
    slots = cs.flatMap (clusterSlots b)

private theorem slotsFrom_add (start : Nat) {m n : Nat} (h : 32 ∣ m) :
    slotsFrom start (m + n) = slotsFrom start m ++ slotsFrom (start + m) n := by
  obtain ⟨k, rfl⟩ := h
  rw [slotsFrom, Nat.mul_add_div (by decide), range_add, map_append, map_map,
    slotsFrom, Nat.mul_div_cancel_left _ (by decide)]
  congr 1
  apply map_congr_left
  intro j _
  rw [Function.comp_apply]
  omega

private theorem slotsFrom_fit {start count : Nat} (h : entry ∈ slotsFrom start count) :
    entry + 32 ≤ start + count := by
  obtain ⟨k, hk, rfl⟩ := mem_map.mp h
  have hk := mem_range.mp hk
  omega

namespace WellFormed

section

variable (h : WellFormed image b)

include h

private theorem slotOffsets_eq (data : Nat) :
    slotOffsets (b.volume image) data = slotsFrom data b.bytesPerSector := by
  obtain ⟨k, hk⟩ := h.sectorSlots
  rw [slotOffsets, slotsFrom]
  congr 2
  change (b.bytesPerSector + 31) / 32 = _
  omega

section

variable (callback : Callback σ)

private theorem visitSectors_eq {sector count : Nat}
    (hin : (sector + count) * b.bytesPerSector ≤ image.size) (hlt : sector + count < 2 ^ 32)
    (long : LongName) (data : σ) :
    visitSectors (b.volume image) callback (sectorsFrom sector count) long data =
      visitSlots image callback (slotsFrom (sector * b.bytesPerSector) (count * b.bytesPerSector))
        long data := by
  induction count generalizing sector long data with
  | zero =>
    rw [Nat.zero_mul]
    rfl
  | succ count ih =>
    have hpos : (sector + 1) * b.bytesPerSector ≤ (sector + (count + 1)) * b.bytesPerSector :=
      Nat.mul_le_mul_right _ (by omega)
    have hone : (sector + 1) * b.bytesPerSector = sector * b.bytesPerSector + b.bytesPerSector :=
      Nat.succ_mul _ _
    have hsectors : sectorsFrom sector (count + 1) = sector :: sectorsFrom (sector + 1) count := by
      rw [sectorsFrom, range_succ_eq_map, map_cons, map_map,
        Nat.mod_eq_of_lt (by omega), sectorsFrom]
      congr 2
      funext k
      rw [Function.comp_apply]
      congr 1
      omega
    have hpointer : sectorPointer (b.volume image) sector = some (sector * b.bytesPerSector) :=
      if_neg (by
        change ¬sector * b.bytesPerSector + b.bytesPerSector > image.size
        omega)
    have hslots : (count + 1) * b.bytesPerSector = b.bytesPerSector + count * b.bytesPerSector := by
      rw [Nat.succ_mul, Nat.add_comm]
    rw [hsectors, visitSectors, hpointer, hslots, slotsFrom_add _ h.sectorSlots, visitSlots_append,
      ← hone]
    dsimp only
    rw [h.slotOffsets_eq]
    congr 1
    funext r
    rcases r with ⟨data, _ | long⟩
    · rfl
    · exact ih (by rwa [Nat.add_assoc, Nat.add_comm 1]) (by omega) long data

private theorem visitSectors_cluster {cluster : Nat} (hc : b.Valid cluster) (long : LongName)
    (data : σ) : visitSectors (b.volume image) callback
        (sectorsFrom (clusterFirstSector (b.volume image) cluster) b.sectorsPerCluster) long data =
      visitSlots image callback (clusterSlots b cluster) long data := by
  have hle := hc.cluster_le
  have hdata := h.data_le
  have htotal := h.totalSectors_lt
  have hin : (b.dataStart + (cluster - 2) * b.sectorsPerCluster + b.sectorsPerCluster) *
      b.bytesPerSector ≤ image.size :=
    Nat.le_trans (Nat.mul_le_mul_right _ hle) h.clustersInside
  rw [h.clusterFirstSector_eq hc]
  exact h.visitSectors_eq callback hin (by omega) long data

private theorem visitClusters_eq {cs : List Nat} {cluster stop fuel : Nat}
    (hlinks : Links image b cluster cs stop) (hstop : endMark b.type ≤ stop)
    (hfuel : cs.length < fuel) (long : LongName) (data : σ) :
    visitClusters (b.volume image) callback fuel cluster long data =
      Prod.fst <$> visitSlots image callback (cs.flatMap (clusterSlots b)) long data := by
  induction cs generalizing cluster fuel long data with
  | nil =>
    obtain ⟨fuel, rfl⟩ := Nat.exists_eq_add_of_lt hfuel
    have hlast : isLastCluster (b.volume image) cluster = true := by
      rw [show cluster = stop from hlinks, isLastCluster, decide_eq_true_eq]
      exact .inr hstop
    rw [visitClusters, if_pos hlast]
    rfl
  | cons c cs ih =>
    obtain ⟨rfl, hc, hrest⟩ := hlinks
    obtain ⟨fuel, rfl⟩ : ∃ k, fuel = k + 1 := ⟨fuel - 1, by omega⟩
    rw [visitClusters, if_neg (h.not_isLastCluster hc), flatMap_cons, visitSlots_append,
      h.nextCluster_eq hc]
    change visitSectors (b.volume image) callback
      (sectorsFrom (clusterFirstSector (b.volume image) cluster) b.sectorsPerCluster) long data >>=
        _ = _
    rw [h.visitSectors_cluster callback hc]
    cases visitSlots image callback (clusterSlots b cluster) long data with
    | error stop => rfl
    | ok r =>
      rcases r with ⟨data, _ | long⟩
      · rfl
      · exact ih hrest (by rw [length_cons] at hfuel; omega) long data

end

private theorem root_inside : (b.rootStart + b.rootLength) * b.bytesPerSector ≤ image.size :=
  Nat.le_trans (Nat.mul_le_mul_right _ (Nat.le_add_right _ _)) h.clustersInside

private theorem slots_inside {directory : Directory} {slots : List Nat}
    (hslots : SlotsOf image b directory slots) : ∀ entry ∈ slots, entry + 32 ≤ image.size := by
  intro entry hmem
  rw [SlotsOf] at hslots
  split at hslots
  · have hroot := h.root_inside
    have hfit := slotsFrom_fit (hslots ▸ hmem)
    rw [Nat.add_mul] at hroot
    exact Nat.le_trans hfit hroot
  · obtain ⟨cs, stop, hlinks, -, rfl⟩ := hslots
    obtain ⟨c, hc, hentry⟩ := mem_flatMap.mp hmem
    exact Nat.le_trans (slotsFrom_fit hentry) (h.cluster_inside (hlinks.valid c hc))

/-- A walk over a directory hands its entries to the callback. -/
theorem iterateDirectory_eq (callback : Callback σ) {directory : Directory}
    {slots : List Nat} (hslots : SlotsOf image b directory slots) {fuel : Nat}
    (hfuel : b.clusterCount < fuel) (data : σ) :
    iterateDirectory fuel (b.volume image) directory callback data =
      .ok (foldEntries callback (entriesOf image slots LongName.none) data) := by
  rw [← visitSlots_eq callback (h.slots_inside hslots), iterateDirectory]
  rw [SlotsOf] at hslots
  split at hslots
  · next hroot =>
    have hdata := h.data_le
    have htotal := h.totalSectors_lt
    have hlt : b.rootStart + b.rootLength < 2 ^ 32 := by
      rw [← Bpb.dataStart]
      omega
    rw [if_pos hroot, hslots, rootSlots, ← h.visitSectors_eq callback h.root_inside hlt]
    rfl
  · next hroot =>
    obtain ⟨cs, stop, hlinks, hstop, rfl⟩ := hslots
    have hvalid : ¬b.Valid stop := by
      intro hv
      have := hv.2
      have := h.numbers
      omega
    have hlen := hlinks.length_le hvalid
    rw [if_neg hroot, h.visitClusters_eq callback hlinks hstop (Nat.lt_of_le_of_lt hlen hfuel)]

end

end WellFormed

end NasuaOS.Fat
