import NasuaOS.Memory.Tables

/-!
# Kernel mappings as a map from pages to frames

Runs of `map_page` and `unmap_page` against a plain map from pages to frames, which changes only
with the calls that succeed. `translate` and the results of `unmap_page` are those of the map.
-/

namespace NasuaOS.Memory

open Base Function

/-- A frame that an entry can name. -/
structure Frame where
  address : Nat
  aligned : pageSize ∣ address
  small : address < 2 ^ 52

/-- A call of `map_page` or `unmap_page`. -/
inductive Request where
  | map (virt : Nat) (frame : Frame) (flags : PageFlags)
  | unmap (virt : Nat)

namespace Request

/-- The address that a call is about. -/
def virt : Request → Nat
  | map virt _ _ => virt
  | unmap virt => virt

/-- The call. -/
def run : Request → Machine → Bool × Machine
  | map virt frame flags => mapPage virt frame.address flags.bits
  | unmap virt => unmapPage virt

/-- What the call leaves mapped when it succeeds. -/
def frame? : Request → Option Nat
  | map _ frame _ => some frame.address
  | unmap _ => none

end Request

/-- A map from pages to frames. -/
abbrev Mapping := Nat → Option Nat

/-- The map after a call that succeeded or not. -/
def Mapping.after (map : Mapping) (r : Request) (ok : Bool) : Mapping :=
  if ok = true then update map (pageOf r.virt) r.frame? else map

/-- One call on the machine and on the map. -/
def Mapping.step (s : Machine × Mapping) (r : Request) : Machine × Mapping :=
  ((r.run s.1).2, s.2.after r (r.run s.1).1)

/-- Calls one after another. -/
def Mapping.follow (requests : List Request) (s : Machine × Mapping) : Machine × Mapping :=
  requests.foldl Mapping.step s

/-- What a machine has mapped. -/
def mapping (m : Machine) : Mapping := fun page => mapped (page * pageSize) m

private theorem mapping_pageOf (m : Machine) (virt : Nat) :
    mapping m (pageOf virt) = mapped virt m := by
  have hpage : pageOf (pageOf virt * pageSize) = pageOf virt := by
    unfold pageOf pageSize
    omega
  rw [mapping, mapped, resolve_congr hpage, mapped]

/-- A machine after calls: its tables are in order, walks that had no large page have none, and it
has mapped what the map says. -/
structure Refines (start : Machine) (s : Machine × Mapping) : Prop where
  owned : TablesOwned s.1
  largeFree : ∀ virt, LargeFree virt start → LargeFree virt s.1
  agrees : ∀ virt, mapped virt s.1 = s.2 (pageOf virt)

/-- Growing tables leaves walks without large pages as they are. -/
theorem Grown.largeFree {m m' : Machine} (h : Grown m m') {virt : Nat} (hl : LargeFree virt m) :
    LargeFree virt m' := by
  intro level entry
  rw [h.resolves]
  exact hl level entry

/-- Growing tables leaves what is mapped. -/
theorem Grown.mapped {m m' : Machine} (h : Grown m m') (virt : Nat) :
    mapped virt m' = Memory.mapped virt m := by
  rw [Memory.mapped, h.resolves, Memory.mapped]

section Write

variable {m : Machine} {virt : Nat} {n : Table}

/-- Setting an entry of a last table puts no large page on a walk. -/
theorem TablesOwned.largeFree_write (h : TablesOwned m)
    (hn : walk (child m) m.root (tableIndices virt) = some n) (e : Nat) {other : Nat}
    (hl : LargeFree other m) : LargeFree other (m.write n.frame (tableIndex virt 12) e) := by
  intro level entry
  rw [h.resolve_write e hn]
  split
  · unfold Resolved.ofEntry
    split
    · exact nofun
    · exact nofun
  · exact hl level entry

/-- Setting an entry of a last table changes what its page is mapped to. -/
theorem TablesOwned.mapped_write (h : TablesOwned m)
    (hn : walk (child m) m.root (tableIndices virt) = some n) (e other : Nat) :
    mapped other (m.write n.frame (tableIndex virt 12) e) =
      if pageOf other = pageOf virt then (Resolved.ofEntry e).frame else mapped other m := by
  rw [mapped, h.resolve_write e hn, apply_ite Resolved.frame, mapped]

end Write

variable {start : Machine} {s : Machine × Mapping}

private theorem Refines.step (h : Refines start s) {r : Request} (hl : LargeFree r.virt start) :
    Refines start (Mapping.step s r) := by
  obtain ⟨m, map⟩ := s
  cases r with
  | map virt frame flags =>
    have hlarge : LargeFree virt m := h.largeFree _ hl
    rcases h.owned.mapPage_cases hlarge frame.address flags.bits with
      ⟨m₁, hgrown, heq⟩ | ⟨m₁, n, hgrown, hn, heq⟩
    · rw [Mapping.step, Request.run, heq]
      refine ⟨hgrown.owned, fun v hv => hgrown.largeFree (h.largeFree v hv), ?_⟩
      intro v
      exact (hgrown.mapped v).trans (h.agrees v)
    · rw [Mapping.step, Request.run, heq]
      refine ⟨hgrown.owned.write _ _ ⟨_, hn⟩ (level_of_tableIndices hn), ?_, ?_⟩
      · intro v hv
        exact hgrown.owned.largeFree_write hn _ (hgrown.largeFree (h.largeFree v hv))
      · intro v
        have hentry : (Resolved.ofEntry (kernelLeaf frame.address flags.bits)).frame =
            some frame.address := by
          rw [Resolved.ofEntry, if_pos (present_kernelLeaf _ _), Resolved.frame,
            frameOf_kernelLeaf flags frame.aligned frame.small]
        change mapped v (m₁.write n.frame (tableIndex virt 12) _) =
          update map (pageOf virt) (some frame.address) (pageOf v)
        rw [hgrown.owned.mapped_write hn, hentry, update_apply, hgrown.mapped v,
          h.agrees v]
  | unmap virt =>
    have hlarge : LargeFree virt m := h.largeFree _ hl
    rcases hlarge.unmapPage_cases with ⟨-, heq⟩ | ⟨n, frame, hn, -, heq⟩
    · rw [Mapping.step, Request.run, heq]
      exact h
    · rw [Mapping.step, Request.run, heq]
      refine ⟨h.owned.write _ _ ⟨_, hn⟩ (level_of_tableIndices hn), ?_, ?_⟩
      · intro v hv
        exact h.owned.largeFree_write hn _ (h.largeFree v hv)
      · intro v
        change mapped v (m.write n.frame (tableIndex virt 12) 0) =
          update map (pageOf virt) none (pageOf v)
        rw [h.owned.mapped_write hn, update_apply, h.agrees v]
        rfl

private theorem Refines.follow (h : Refines start s) (requests : List Request)
    (hl : ∀ r ∈ requests, LargeFree r.virt start) : Refines start (Mapping.follow requests s) :=
  foldl_invariant Mapping.step requests s h
    fun _ r hr ht => ht.step (hl r hr)

private theorem TablesOwned.refines {m : Machine} (h : TablesOwned m) :
    Refines m (m, mapping m) where
  owned := h
  largeFree _ hl := hl
  agrees virt := (mapping_pageOf m virt).symm

/-- From tables in order, after any calls on addresses without large pages: `translate` returns the
frame in the map or 0, `unmap_page` succeeds exactly on pages of the map, and a `map_page` that
fails leaves every translation as it was. -/
theorem translate_follows_mapping {m : Machine} (h : TablesOwned m) (requests : List Request)
    (hrequests : ∀ r ∈ requests, LargeFree r.virt m) {virt : Nat} (hvirt : LargeFree virt m) :
    translate virt (Mapping.follow requests (m, mapping m)).1 =
        ((Mapping.follow requests (m, mapping m)).2 (pageOf virt)).getD 0 ∧
      (unmapPage virt (Mapping.follow requests (m, mapping m)).1).1 =
        ((Mapping.follow requests (m, mapping m)).2 (pageOf virt)).isSome ∧
      ∀ (frame : Frame) (flags : PageFlags),
        (mapPage virt frame.address flags.bits (Mapping.follow requests (m, mapping m)).1).1 = false →
        ∀ other,
          translate other
              (mapPage virt frame.address flags.bits (Mapping.follow requests (m, mapping m)).1).2 =
            translate other (Mapping.follow requests (m, mapping m)).1 := by
  have hrefines := h.refines.follow requests hrequests
  have hlarge := hrefines.largeFree virt hvirt
  refine ⟨?_, ?_, ?_⟩
  · rw [hlarge.translate_eq, hrefines.agrees]
  · rw [← hrefines.agrees]
    rcases hlarge.unmapPage_cases with ⟨hnone, heq⟩ | ⟨n, frame, -, hsome, heq⟩
    · rw [heq, hnone]
      rfl
    · rw [heq, hsome]
      rfl
  · intro frame flags hfail other
    rcases hrefines.owned.mapPage_cases hlarge frame.address flags.bits with
      ⟨m₁, hgrown, heq⟩ | ⟨m₁, n, -, -, heq⟩
    · rw [heq, translate_eq, translate_eq, hgrown.resolves]
    · rw [heq] at hfail
      cases hfail

/-- A manager of 259 pages; the three from 1 MiB on are free. -/
def threePages : Pmm := ⟨⟨fun i => if i = 32 then 0xF8 else 0xFF⟩, 259, 256, 3⟩

/-- Three free pages, a memory of zeros, and `pml4` in a given frame. -/
def emptyMachine (pml4 : Nat) : Machine := ⟨threePages, fun _ _ => 0, pml4⟩

section Zeros

variable {m : Machine} (hzero : ∀ f i, m.mem f i = 0)

include hzero

private theorem walk_zeros {p : List (Fin 512)} {a : Table} (h : walk (child m) m.root p = some a) :
    p = [] ∧ a = m.root := by
  have hchild (n : Table) (i : Fin 512) : child m n i = none := by
    rw [child, hzero]
    simp
  cases p with
  | nil =>
    cases h
    exact ⟨rfl, rfl⟩
  | cons i p =>
    rw [walk, hchild] at h
    cases h

private theorem tablesApart_zeros : TablesApart m := by
  intro p q a b ha hb _
  rw [(walk_zeros hzero ha).1, (walk_zeros hzero hb).1]

private theorem resolve_zeros (virt : Nat) : resolve virt m = .absent := by
  rcases hd : descend (child m) m.root (tableIndices virt) with ⟨n, rest⟩
  rw [resolve, hd]
  cases rest with
  | nil | cons i rest => rw [resolveEnd, hzero, if_neg (by decide)]

/-- In a memory of zeros no walk meets a large page. -/
theorem largeFree_zeros (virt : Nat) : LargeFree virt m := by
  intro level entry
  rw [resolve_zeros hzero]
  exact nofun

/-- With `pml4` in a page that is not free, a memory of zeros is in order. -/
theorem tablesOwned_zeros (hroot : m.pml4 / pageSize ∉ freeSet m.pmm)
    (hbounded : m.pmm.totalPages * pageSize ≤ 2 ^ 64) : TablesOwned m where
  apart := tablesApart_zeros hzero
  used := by
    rintro a ⟨p, ha⟩
    rw [(walk_zeros hzero ha).2]
    exact hroot
  bounded := hbounded

end Zeros

private theorem tablesOwned_emptyMachine : TablesOwned (emptyMachine 0x1000) := by
  apply tablesOwned_zeros (fun _ _ => rfl)
  · intro hmem
    exact absurd (mem_freeSet.mp hmem).2 (by decide)
  · decide

/-- The frame at 2 MiB. -/
def sampleFrame : Frame := ⟨0x200000, by decide, by decide⟩

/-- Page 0x400 mapped to the frame at 2 MiB. -/
def sampleRequests : List Request := [.map 0x400000 sampleFrame ⟨true, true, false, false⟩]

/-- From a memory of zeros, a page that is mapped translates to its frame. -/
theorem translate_follows_sampleRequests :
    TablesOwned (emptyMachine 0x1000) ∧
      translate 0x400000
        (Mapping.follow sampleRequests (emptyMachine 0x1000, mapping (emptyMachine 0x1000))).1 =
          0x200000 := by
  have hrun := translate_follows_mapping tablesOwned_emptyMachine sampleRequests
    (fun r _ => largeFree_zeros (fun _ _ => rfl) _) (largeFree_zeros (fun _ _ => rfl) 0x400000)
  refine ⟨tablesOwned_emptyMachine, hrun.1.trans ?_⟩
  decide +kernel

/-- A machine with a page mapped already. -/
def mappedMachine : Machine :=
  (Mapping.follow sampleRequests (emptyMachine 0x1000, mapping (emptyMachine 0x1000))).1

/-- An address whose indices all lead back to `pml4` once `pml4` is its own first entry. -/
def recursiveAddress : Nat := 1 <<< 39 ||| 1 <<< 30 ||| 1 <<< 21 ||| 2 <<< 12

/-- A request with indices 1, 2, 3 and 4. -/
def crossingRequests : List Request :=
  [.map (1 <<< 39 ||| 2 <<< 30 ||| 3 <<< 21 ||| 4 <<< 12) sampleFrame ⟨true, true, false, false⟩]

/-- A page mapped before the first call translates without any `map_page`; and when `pml4` lies in
a free page, `map_page` takes it for a new table, and a page that was never mapped translates. -/
theorem translate_not_latest :
    (TablesOwned mappedMachine ∧ LargeFree 0x400000 mappedMachine ∧
      translate 0x400000 (Mapping.follow [] (mappedMachine, fun _ => none)).1 ≠
        ((Mapping.follow [] (mappedMachine, fun _ => none)).2 (pageOf 0x400000)).getD 0) ∧
    (TablesApart (emptyMachine 0x100000) ∧
      (∀ virt, LargeFree virt (emptyMachine 0x100000) ∧ mapped virt (emptyMachine 0x100000) = none) ∧
      translate recursiveAddress
          (Mapping.follow crossingRequests (emptyMachine 0x100000, fun _ => none)).1 ≠
        ((Mapping.follow crossingRequests (emptyMachine 0x100000, fun _ => none)).2
          (pageOf recursiveAddress)).getD 0) := by
  have hrefines := tablesOwned_emptyMachine.refines.follow sampleRequests
    fun r _ => largeFree_zeros (fun _ _ => rfl) _
  refine ⟨⟨hrefines.owned, hrefines.largeFree _ (largeFree_zeros (fun _ _ => rfl) _), ?_⟩,
    tablesApart_zeros (fun _ _ => rfl), ?_, ?_⟩
  · decide +kernel
  · intro virt
    refine ⟨largeFree_zeros (fun _ _ => rfl) _, ?_⟩
    rw [mapped, resolve_zeros (fun _ _ => rfl)]
    rfl
  · decide +kernel

end NasuaOS.Memory
