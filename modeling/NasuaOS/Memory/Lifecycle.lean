import NasuaOS.Memory.UserSpaces

/-!
# Runs of user address spaces

Any interleaving of the calls on user address spaces, with clients that take and return pages and
with other code that writes to memory outside the tables of live spaces. Destroying a space returns
the pages of its ledger, each once.
-/

namespace NasuaOS.Memory

open Base Function Finset

variable {s : System} {h : Nat}

/-- The addresses that `destroy_user_address_space` gives to `free_page`, in order. -/
def releasedFrames (m : Machine) (space : UserAddressSpace) : List Nat :=
  ((userChild m space.pml4Index space.root space.pml4Index).elim [] fun pdpt =>
    (postorder (userChild m space.pml4Index) (List.finRange 512) 3 pdpt).map Table.frame) ++
    [space.rootPhys]

section Release

variable (m : Machine) (index : Fin 512)

/-- Give back the tables and pages below a table and then the table. -/
def releaseBelow (depth : Nat) (n : Table) (pmm : Pmm) : Pmm :=
  (postorder (userChild m index) (List.finRange 512) depth n).foldl
    (fun pmm c => freePage pmm c.frame) pmm

private theorem freePage_releasePages (pt : Nat) (pmm : Pmm) :
    freePage (releasePages m pt pmm) pt = releaseBelow m index 1 ⟨3, pt⟩ pmm := by
  rw [releaseBelow, foldl_postorder, releasePages]
  congr 2
  ext1 pmm
  ext1 i
  cases hp : present (m.mem pt i) with
  | false =>
    rw [userChild_absent hp]
    rfl
  | true =>
    rw [userChild_page index rfl hp]
    rfl

private theorem freePage_releaseTables (level : Nat) {depth : Nat} {below : Nat → Pmm → Pmm}
    (hlow : level ≠ 0) (hlevel : level < 3)
    (hbelow : ∀ t pmm, freePage (below t pmm) t = releaseBelow m index depth ⟨level + 1, t⟩ pmm)
    (table : Nat) (pmm : Pmm) : freePage (releaseTables m below table pmm) table =
      releaseBelow m index (depth + 1) ⟨level, table⟩ pmm := by
  rw [releaseBelow, foldl_postorder, releaseTables]
  congr 2
  ext1 pmm
  ext1 i
  cases hp : present (m.mem table i) with
  | false =>
    rw [userChild_absent hp]
    rfl
  | true =>
    rw [userChild_table hlevel (fun hzero => absurd hzero hlow) hp]
    exact hbelow _ _

end Release

private theorem release_root (m : Machine) (space : UserAddressSpace) :
    (if present (m.mem space.rootPhys space.pml4Index) = true then
      freePage (releaseTables m (releaseTables m (releasePages m))
        (tableFromEntry (m.mem space.rootPhys space.pml4Index)) m.pmm)
        (tableFromEntry (m.mem space.rootPhys space.pml4Index)) else m.pmm) =
    ((userChild m space.pml4Index space.root space.pml4Index).elim [] fun pdpt =>
      (postorder (userChild m space.pml4Index) (List.finRange 512) 3 pdpt).map
        Table.frame).foldl freePage m.pmm := by
  cases hp : present (m.mem space.rootPhys space.pml4Index) with
  | false =>
    rw [userChild_absent hp]
    rfl
  | true =>
    have hpd := freePage_releaseTables m space.pml4Index 2 (by decide) (by decide)
      (freePage_releasePages m space.pml4Index)
    have hpdpt := freePage_releaseTables m space.pml4Index 1 (by decide) (by decide) hpd
    have hchild : userChild m space.pml4Index space.root space.pml4Index =
        some ⟨1, tableFromEntry (m.mem space.rootPhys space.pml4Index)⟩ :=
      userChild_table (Nat.zero_lt_succ 2) (fun _ => rfl) hp
    rw [hchild, Option.elim_some, List.foldl_map, if_pos rfl, hpdpt, releaseBelow]

private theorem destroyUserAddressSpace_eq {m : Machine} {space : UserAddressSpace}
    {activeCr3 : Nat} (hvalid : space.valid = true) (hroot : space.rootPhys ≠ 0)
    (hactive : activeCr3 ≠ space.rootPhys) : destroyUserAddressSpace activeCr3 space m =
      (true, .empty, { m with pmm := (releasedFrames m space).foldl freePage m.pmm }) := by
  have hguard : ¬(space.valid = false ∨ space.rootPhys = 0 ∨ activeCr3 = space.rootPhys) := by
    rintro (hv | hr | ha)
    · rw [hvalid] at hv
      cases hv
    · exact hroot hr
    · exact hactive ha
  rw [destroyUserAddressSpace, if_neg hguard]
  dsimp only
  rw [release_root, releasedFrames, List.foldl_append]
  rfl

private theorem releasedFrames_eq (m : Machine) (space : UserAddressSpace) :
    releasedFrames m space =
      (postorder (userChild m space.pml4Index) (List.finRange 512) 4 space.root).map Table.frame := by
  have hother (i : Fin 512) (hi : i ≠ space.pml4Index) :
      userChild m space.pml4Index space.root i = none := if_neg fun hall => hi (hall.2.1 rfl)
  -- Of the root only one entry counts.
  obtain ⟨front, rest, hlist⟩ := List.append_of_mem (List.mem_finRange space.pml4Index)
  have hnodup := List.nodup_finRange 512
  rw [hlist, List.nodup_middle, List.nodup_cons, List.mem_append, not_or] at hnodup
  obtain ⟨⟨hfront, hrest⟩, -⟩ := hnodup
  have hnil (l : List (Fin 512)) (hl : space.pml4Index ∉ l) :
      l.flatMap (fun i => (userChild m space.pml4Index space.root i).elim []
        (postorder (userChild m space.pml4Index) (List.finRange 512) 3)) = [] := by
    rw [List.flatMap_eq_nil_iff]
    intro i hi
    rw [hother i fun heq => hl (heq ▸ hi)]
    rfl
  rw [postorder, hlist, List.flatMap_append, List.flatMap_cons, ← hlist, hnil front hfront,
    hnil rest hrest, releasedFrames]
  cases userChild m space.pml4Index space.root space.pml4Index with
  | none | some pdpt => simp [UserAddressSpace.root]

private theorem mem_releasedFrames (s : System) (h addr : Nat) :
    addr ∈ releasedFrames s.machine (s.spaces h) ↔ ∃ q a, s.node h q = some a ∧ a.frame = addr := by
  rw [releasedFrames_eq, List.mem_map]
  constructor
  · rintro ⟨a, ha, rfl⟩
    obtain ⟨q, -, hwalk⟩ := (mem_postorder List.mem_finRange).mp ha
    exact ⟨q, a, hwalk, rfl⟩
  · rintro ⟨q, a, ha, rfl⟩
    refine ⟨a, (mem_postorder List.mem_finRange).mpr ⟨q, ?_, ha⟩, rfl⟩
    rw [← UserAddressSpace.level_of_node ha]
    exact UserAddressSpace.level_le_of_node ha

private theorem Sound.nodup_releasedFrames (hs : Sound s) (hv : s.Live h) :
    (releasedFrames s.machine (s.spaces h)).Nodup := by
  rw [releasedFrames_eq]
  apply nodup_postorder List.mem_finRange (List.nodup_finRange 512)
  exact fun p q a b ha hb heq => (hs.apart h h hv hv p q a b ha hb heq).2

private theorem Sound.freeSet_destroy (hs : Sound s) (hv : s.Live h) :
    freeSet ((releasedFrames s.machine (s.spaces h)).foldl freePage s.machine.pmm) =
        s.free ∪ s.ledger h ∧
      ((releasedFrames s.machine (s.spaces h)).foldl freePage s.machine.pmm).totalPages =
        s.machine.pmm.totalPages := by
  have hpages : ∀ addr ∈ releasedFrames s.machine (s.spaces h), ∃ page, addr = page * pageSize ∧
      page ≠ 0 ∧ page < s.machine.pmm.totalPages ∧ page ∉ freeSet s.machine.pmm := by
    intro addr haddr
    obtain ⟨q, a, ha, rfl⟩ := (mem_releasedFrames s h addr).mp haddr
    obtain ⟨page, heq, hne, hlt, hfree, -⟩ := hs.placed h hv q a ha
    exact ⟨page, heq, hne, hlt, hfree⟩
  obtain ⟨hfree, htotal⟩ := freeSet_foldl_freePage (hs.nodup_releasedFrames hv) hpages
  refine ⟨?_, htotal⟩
  ext page
  rw [hfree page, mem_union, hs.ledger h hv page, mem_releasedFrames]
  rfl

namespace System

/-- `map_user_page` of a page that a client holds. -/
def map (s : System) (h virt page : Nat) (flags : PageFlags) : System :=
  match mapUserPage (s.spaces h) virt (page * pageSize) flags.bits s.machine with
  | (false, m) => s.grow h m
  | (true, m) =>
    ⟨m, s.spaces, s.held.erase page,
      update s.ledger h (insert page ((s.grow h m).ledger h))⟩

/-- The system after a call that returned pages of a handle. -/
def returned (s : System) (h : Nat) (m : Machine) (space : UserAddressSpace) : System where
  machine := m
  spaces := update s.spaces h space
  held := s.held
  ledger := update s.ledger h (s.ledger h \ (freeSet m.pmm \ s.free))

/-- `unmap_user_page`. -/
def unmap (s : System) (h virt : Nat) : System :=
  s.returned h (unmapUserPage (s.spaces h) virt s.machine).2 (s.spaces h)

/-- `sync_kernel_mappings`. -/
def sync (s : System) (h : Nat) : System :=
  { s with machine := (syncKernelMappings (s.spaces h) s.machine).2 }

/-- `destroy_user_address_space`. -/
def destroy (s : System) (h activeCr3 : Nat) : System :=
  s.returned h (destroyUserAddressSpace activeCr3 (s.spaces h) s.machine).2.2
    (destroyUserAddressSpace activeCr3 (s.spaces h) s.machine).2.1

/-- A client takes a page. -/
def take (s : System) : System :=
  { s with
    machine := (takePage s.machine).2
    held := if (takePage s.machine).1 = 0 then s.held
      else insert ((takePage s.machine).1 / pageSize) s.held }

/-- A client returns a page. -/
def give (s : System) (page : Nat) : System :=
  { s with machine := s.machine.free (page * pageSize), held := s.held.erase page }

/-- Other code writes to memory. -/
def touch (s : System) (mem : Nat → Fin 512 → Nat) : System :=
  { s with machine := { s.machine with mem := mem } }

/-- States that calls lead to, from any machine without user spaces. A page is mapped only while a
client holds it, and other code leaves the tables of live spaces alone. -/
inductive Reachable : System → Prop
  | start {m : Machine} {held : Finset Nat} (hbounded : m.pmm.totalPages * pageSize ≤ 2 ^ 64)
      (hheld : ∀ page ∈ held, page ≠ 0 ∧ page < m.pmm.totalPages ∧ page ∉ freeSet m.pmm) :
      Reachable ⟨m, fun _ => .empty, held, fun _ => ∅⟩
  | create {s : System} (hs : Reachable s) (h : Nat) : Reachable (s.create h)
  | map {s : System} (hs : Reachable s) (h virt : Nat) {page : Nat} (hpage : page ∈ s.held)
      (flags : PageFlags) : Reachable (s.map h virt page flags)
  | unmap {s : System} (hs : Reachable s) (h virt : Nat) : Reachable (s.unmap h virt)
  | sync {s : System} (hs : Reachable s) (h : Nat) : Reachable (s.sync h)
  | destroy {s : System} (hs : Reachable s) (h activeCr3 : Nat) : Reachable (s.destroy h activeCr3)
  | take {s : System} (hs : Reachable s) : Reachable s.take
  | give {s : System} (hs : Reachable s) {page : Nat} (hpage : page ∈ s.held) :
      Reachable (s.give page)
  | touch {s : System} (hs : Reachable s) {mem : Nat → Fin 512 → Nat}
      (hmem : ∀ k, s.Live k → ∀ q a, s.node k q = some a → a.level < 4 →
        mem a.frame = s.machine.mem a.frame) : Reachable (s.touch mem)

end System

private theorem System.returned_self (s : System) (h : Nat) :
    s.returned h s.machine (s.spaces h) = s := by
  rw [returned, free, sdiff_self, sdiff_bot, update_eq_self, update_eq_self]

private theorem System.destroy_refused {activeCr3 : Nat}
    (hguard : ¬(s.Live h ∧ (s.spaces h).rootPhys ≠ 0 ∧ activeCr3 ≠ (s.spaces h).rootPhys)) :
    s.destroy h activeCr3 = s := by
  have hfail : destroyUserAddressSpace activeCr3 (s.spaces h) s.machine =
      (false, s.spaces h, s.machine) := by
    rw [destroyUserAddressSpace, if_pos]
    by_contra hnot
    push Not at hnot
    exact hguard ⟨eq_true_of_ne_false hnot.1, hnot.2⟩
  rw [destroy, hfail, s.returned_self]

namespace Sound

variable (hs : Sound s)

include hs

private theorem map (h virt : Nat) {page : Nat} (hpage : page ∈ s.held) (flags : PageFlags) :
    Sound (s.map h virt page flags) := by
  rcases hs.mapUserPage_cases virt hpage flags with
    ⟨m₁, hgrows, heq⟩ | ⟨m₁, -, hsound, -, heq⟩
  · rw [System.map, heq]
    exact hgrows.sound
  · rw [System.map, heq]
    exact hsound

private theorem unmap (h virt : Nat) : Sound (s.unmap h virt) := by
  rcases hs.unmapUserPage_cases h virt with heq | ⟨m₁, page, hpage, hnot, hfree, hsound, heq⟩
  · rw [System.unmap, heq, s.returned_self]
    exact hs
  · have hset : s.ledger h \ (freeSet m₁.pmm \ s.free) = (s.ledger h).erase page := by
      rw [hfree, insert_sdiff_of_notMem _ hnot, sdiff_self, bot_eq_empty,
        insert_empty_eq, sdiff_singleton_eq_erase]
    rw [System.unmap, heq, System.returned, update_eq_self, hset]
    exact hsound

private theorem sync (h : Nat) : Sound (s.sync h) := by
  unfold System.sync syncKernelMappings
  split
  · exact hs
  next hguard =>
  have hv : s.Live h := by
    by_contra hinvalid
    exact hguard (.inl (Bool.not_eq_true _ ▸ hinvalid))
  -- The words of the user half stay, so no tree changes.
  have hword (k : Nat) (hk : s.Live k) (q : List (Fin 512)) (a : Table) (ha : s.node k q = some a)
      (i : Fin 512) (hi : a.level = 0 → i.val < 256) :
      (s.machine.fill (s.spaces h).rootPhys fun i =>
        if 256 ≤ i.val then kernelEntry (s.machine.mem s.machine.pml4 i)
        else s.machine.mem (s.spaces h).rootPhys i).mem a.frame i = s.machine.mem a.frame i := by
    rw [Machine.fill]
    dsimp only
    split
    · next hframe =>
      obtain ⟨rfl, rfl⟩ := hs.apart k h hk hv q [] a (s.spaces h).root ha rfl hframe
      cases ha
      rw [if_neg (Nat.not_le.mpr (hi rfl))]
      rfl
    · rfl
  refine hs.same ?_ rfl (fun page hp => .inl hp) ?_ ?_
  · rintro k hk a i ⟨q, ha⟩
    by_cases hi : a.level = 0 → i.val < 256
    · exact userChild_congr (hword k hk q a ha i hi) _
    · -- Only one entry of a root counts, and it is in the user half.
      push Not at hi
      have hne : ¬(a.level = 0 → i = (s.spaces k).pml4Index) := by
        intro heq
        have hlow := hs.index k hk
        rw [← heq hi.1] at hlow
        omega
      rw [userChild, if_neg (fun hall => hne hall.2.1), userChild,
        if_neg (fun hall => hne hall.2.1)]
  · exact hs.held_spare (Subset.refl _)
  · intro k hk i hi
    rw [Machine.fill]
    dsimp only
    split
    · exact user_kernelEntry _
    · exact hs.kernelHalf k hk i hi

private theorem rootPhys_ne_zero (hv : s.Live h) : (s.spaces h).rootPhys ≠ 0 := by
  obtain ⟨page, heq, hne, -⟩ := hs.placed h hv [] (s.spaces h).root rfl
  change (s.spaces h).rootPhys = page * pageSize at heq
  rw [heq]
  exact Nat.mul_ne_zero hne (by decide)

private theorem destroy (h activeCr3 : Nat) : Sound (s.destroy h activeCr3) := by
  by_cases hguard : s.Live h ∧ (s.spaces h).rootPhys ≠ 0 ∧ activeCr3 ≠ (s.spaces h).rootPhys
  · obtain ⟨hv, hroot, hactive⟩ := hguard
    obtain ⟨hfree, htotal⟩ := hs.freeSet_destroy hv
    rw [System.destroy, destroyUserAddressSpace_eq hv hroot hactive, System.returned]
    refine hs.clear h _ (fun _ _ _ _ _ => rfl) htotal fun page hp => ?_
    rw [hfree, mem_union] at hp
    exact hp.imp_right fun hp => ⟨hv, hp⟩
  · rw [System.destroy_refused hguard]
    exact hs

private theorem take : Sound s.take := by
  unfold System.take
  rcases takePage_cases s.machine with ⟨-, heq⟩ | ⟨page, pmm, hpage, hfree, htotal, heq⟩
  · rw [heq, if_pos rfl]
    exact hs
  rw [heq]
  have hsub : freeSet pmm ⊆ s.free := hfree ▸ erase_subset _ _
  have hold := hs.held_spare hsub
  refine hs.same (fun k _ a i _ => userChild_congr rfl _) htotal (fun other hp => .inl (hsub hp))
    ?_ hs.kernelHalf
  intro other hp
  split at hp
  · exact hold other hp
  next hne =>
  rw [Nat.mul_div_cancel _ (by decide), mem_insert] at hp
  rcases hp with rfl | hp
  · refine ⟨left_ne_zero_of_mul hne, ?_, .inl hpage⟩
    rw [hfree]
    exact notMem_erase _ _
  · exact hold other hp

private theorem give {page : Nat} (hpage : page ∈ s.held) : Sound (s.give page) := by
  obtain ⟨hne, hlt, hnot⟩ := hs.held page hpage
  obtain ⟨hfree, htotal⟩ := freeSet_freePage hne hlt hnot
  refine hs.same (fun k _ a i _ => userChild_congr rfl _) htotal ?_ ?_ hs.kernelHalf
  · intro other hp
    change other ∈ freeSet (freePage s.machine.pmm (page * pageSize)) at hp
    rw [hfree, mem_insert] at hp
    rcases hp with rfl | hp
    · exact .inr hpage
    · exact .inl hp
  · intro other hp
    rw [mem_erase] at hp
    obtain ⟨hone, -, honot⟩ := hs.held other hp.2
    refine ⟨hone, ?_, .inr hp.2⟩
    change other ∉ freeSet (freePage s.machine.pmm (page * pageSize))
    rw [hfree, mem_insert]
    rintro (heq | hmem)
    · exact hp.1 heq
    · exact honot hmem

private theorem touch {mem : Nat → Fin 512 → Nat}
    (hmem : ∀ k, s.Live k → ∀ q a, s.node k q = some a → a.level < 4 →
      mem a.frame = s.machine.mem a.frame) : Sound (s.touch mem) := by
  refine hs.same ?_ rfl (fun page hp => .inl hp) ?_ ?_
  · rintro k hk a i ⟨q, ha⟩
    by_cases hlevel : a.level < 4
    · exact userChild_congr (congrFun (hmem k hk q a ha hlevel) i) _
    · rw [userChild_leaf hlevel, userChild_leaf hlevel]
  · exact hs.held_spare (Subset.refl _)
  · intro k hk i hi
    have hroot := congrFun (hmem k hk [] (s.spaces k).root rfl (Nat.zero_lt_succ 3)) i
    change user (mem (s.spaces k).root.frame i) = false
    rw [hroot]
    exact hs.kernelHalf k hk i hi

end Sound

private theorem sound_start {m : Machine} {held : Finset Nat}
    (hbounded : m.pmm.totalPages * pageSize ≤ 2 ^ 64)
    (hheld : ∀ page ∈ held, page ≠ 0 ∧ page < m.pmm.totalPages ∧ page ∉ freeSet m.pmm) :
    Sound ⟨m, fun _ => .empty, held, fun _ => ∅⟩ where
  bounded := hbounded
  held := hheld
  index _ hk := nomatch hk
  placed _ hk := nomatch hk
  apart _ _ hk := nomatch hk
  ledger _ hk := nomatch hk
  kernelHalf _ hk := nomatch hk

private theorem System.Reachable.sound {s : System} (h : s.Reachable) : Sound s := by
  induction h with
  | start hbounded hheld => exact sound_start hbounded hheld
  | create _ h ih => exact ih.create h
  | map _ h virt hpage flags ih => exact ih.map h virt hpage flags
  | unmap _ h virt ih => exact ih.unmap h virt
  | sync _ h ih => exact ih.sync h
  | destroy _ h activeCr3 ih => exact ih.destroy h activeCr3
  | take _ ih => exact ih.take
  | give _ hpage ih => exact ih.give hpage
  | touch _ hmem ih => exact ih.touch hmem

/-- In every state: destroying a live space that is not active gives back the pages of its ledger,
each once, none of them free before; the ledgers of live spaces are apart from each other and from
the free pages; and the kernel half of every root is without `PAGE_USER`. -/
theorem user_spaces_own_pages {s : System} (hs : s.Reachable) :
    (∀ h, s.Live h → ∀ activeCr3, activeCr3 ≠ (s.spaces h).rootPhys →
      destroyUserAddressSpace activeCr3 (s.spaces h) s.machine =
          (true, .empty, { s.machine with
            pmm := ((releasedFrames s.machine (s.spaces h)).foldl freePage s.machine.pmm) }) ∧
        (releasedFrames s.machine (s.spaces h)).Nodup ∧
        (∀ addr, addr ∈ releasedFrames s.machine (s.spaces h) ↔
          ∃ page ∈ s.ledger h, addr = page * pageSize) ∧
        freeSet ((releasedFrames s.machine (s.spaces h)).foldl freePage s.machine.pmm) =
          s.free ∪ s.ledger h) ∧
      (∀ h, s.Live h → Disjoint (s.ledger h) s.free) ∧
      (∀ h k, s.Live h → s.Live k → h ≠ k → Disjoint (s.ledger h) (s.ledger k)) ∧
      ∀ h, s.Live h → ∀ i : Fin 512, 256 ≤ i.val →
        user (s.machine.mem (s.spaces h).rootPhys i) = false := by
  have hsound := hs.sound
  refine ⟨?_, ?_, ?_, hsound.kernelHalf⟩
  · intro h hv activeCr3 hactive
    refine ⟨destroyUserAddressSpace_eq hv (hsound.rootPhys_ne_zero hv) hactive,
      hsound.nodup_releasedFrames hv, ?_,
      (hsound.freeSet_destroy hv).1⟩
    intro addr
    rw [mem_releasedFrames]
    constructor
    · rintro ⟨q, a, ha, rfl⟩
      obtain ⟨page, heq, -⟩ := hsound.placed h hv q a ha
      exact ⟨page, (hsound.ledger h hv page).mpr ⟨q, a, ha, heq⟩, heq⟩
    · rintro ⟨page, hpage, rfl⟩
      exact (hsound.ledger h hv page).mp hpage
  · intro h hv
    rw [disjoint_left]
    intro page hpage hfree
    obtain ⟨q, a, ha, heq⟩ := (hsound.ledger h hv page).mp hpage
    exact hsound.frame_ne_of_spare (.inl hfree) hv ha heq
  · intro h k hv hk hne
    rw [disjoint_left]
    intro page hpage hpage'
    obtain ⟨q, a, ha, heq⟩ := (hsound.ledger h hv page).mp hpage
    obtain ⟨r, b, hb, heq'⟩ := (hsound.ledger k hk page).mp hpage'
    exact hne (hsound.apart h k hv hk q r a b ha hb (heq.trans heq'.symm)).1

/-- A manager of 261 pages; the five from 1 MiB on are free. -/
def fivePages : Pmm := ⟨⟨fun i => if i = 32 then 0xE0 else 0xFF⟩, 261, 256, 5⟩

/-- A client takes a page. -/
@[irreducible] def takenSystem : System :=
  System.take ⟨⟨fivePages, fun _ _ => 0, 0x1000⟩, fun _ => .empty, ∅, fun _ => ∅⟩

/-- The page is mapped in a new space. -/
def spaceSystem : System :=
  (takenSystem.create 0).map 0 (1 <<< 39) 256 ⟨true, true, true, false⟩

private theorem spaceSystem_reachable : spaceSystem.Reachable := by
  have hstart : takenSystem.Reachable := by
    unfold takenSystem
    exact .take (.start (by decide) nofun)
  have hheld : 256 ∈ (takenSystem.create 0).held := by decide +kernel
  exact (hstart.create 0).map 0 (1 <<< 39) hheld ⟨true, true, true, false⟩

/-- The space has its root, three tables and the page, and destroying it gives back all five. -/
theorem user_spaces_own_pages_spaceSystem :
    spaceSystem.Reachable ∧ spaceSystem.ledger 0 = {256, 257, 258, 259, 260} ∧
      (destroyUserAddressSpace 0x1000 (spaceSystem.spaces 0) spaceSystem.machine).1 = true ∧
      freeSet (destroyUserAddressSpace 0x1000 (spaceSystem.spaces 0) spaceSystem.machine).2.2.pmm =
        spaceSystem.free ∪ {256, 257, 258, 259, 260} := by
  have hlive : spaceSystem.Live 0 := by
    unfold System.Live
    decide +kernel
  have hledger : spaceSystem.ledger 0 = {256, 257, 258, 259, 260} := by decide +kernel
  have hactive : 0x1000 ≠ (spaceSystem.spaces 0).rootPhys := by decide +kernel
  obtain ⟨heq, -, -, hfree⟩ := (user_spaces_own_pages spaceSystem_reachable).1 0 hlive 0x1000 hactive
  rw [heq, ← hledger]
  exact ⟨spaceSystem_reachable, rfl, rfl, hfree⟩

/-- A range that `is_user_range` accepts is memory of the space: each byte is in a page of its ledger,
neither free nor held, which no live space has in another place, as a page or as a table. -/
theorem isUserRange_own_pages {virt length : Nat} {write execute : Bool} (hs : s.Reachable)
    (hrange : isUserRange (s.spaces h) virt length write execute s.machine = true) (b : Nat)
    (hfirst : virt ≤ b) (hlast : b < virt + length) :
    ∃ page ∈ s.ledger h, page ∉ s.free ∧ page ∉ s.held ∧
      s.node h (tableIndices b ++ [tableIndex b 12]) = some ⟨4, page * pageSize⟩ ∧
      ∀ k q a, s.Live k → s.node k q = some a → a.frame = page * pageSize →
        k = h ∧ q = tableIndices b ++ [tableIndex b 12] := by
  have hsound := hs.sound
  rw [isUserRange] at hrange
  split at hrange
  · cases hrange
  have hlow : virt / pageSize ≤ b / pageSize := Nat.div_le_div_right hfirst
  have hhigh : b / pageSize ≤ (virt + length - 1) / pageSize := Nat.div_le_div_right (by omega)
  have hpage := List.all_eq_true.mp hrange (b / pageSize) (by rw [List.mem_range'_1]; omega)
  -- The loop looks at the first address of the page.
  obtain ⟨htables, hindex⟩ : tableIndices (b / pageSize * pageSize) = tableIndices b ∧
      tableIndex (b / pageSize * pageSize) 12 = tableIndex b 12 := by
    rw [← pageOf_eq_iff, pageOf, pageOf, Nat.mul_div_cancel _ (by decide)]
  rw [hindex] at hpage
  split at hpage
  · cases hpage
  next pt heq =>
  obtain ⟨-, hmachine, hnode⟩ := hsound.getUserLeafTable_spec (Prod.ext heq rfl)
  rw [hmachine rfl, htables] at hnode
  obtain ⟨hlive, hn⟩ := hnode pt rfl
  simp only [Bool.not_eq_true', Bool.or_eq_false_iff, Bool.not_eq_false'] at hpage
  have hedge := userChild_page (n := ⟨3, pt⟩) (s.spaces h).pml4Index rfl hpage.1.1.1
  have hleaf : s.node h (tableIndices b ++ [tableIndex b 12]) =
      some ⟨4, frameOf (s.machine.mem pt (tableIndex b 12))⟩ := (walk_snoc hn _).trans hedge
  obtain ⟨page, hframe, -, -, hfree, hheld⟩ := hsound.placed h hlive _ _ hleaf
  dsimp only at hframe
  rw [hframe] at hleaf
  refine ⟨page, (hsound.ledger h hlive page).mpr ⟨_, _, hleaf, rfl⟩, hfree, hheld, hleaf, ?_⟩
  intro k q a hk ha hsame
  exact hsound.apart k h hk hlive q _ a _ ha hleaf hsame

/-- The page that was mapped may be written to its end. -/
theorem isUserRange_own_pages_spaceSystem :
    ∃ page ∈ spaceSystem.ledger 0, page ∉ spaceSystem.free ∧ page ∉ spaceSystem.held := by
  have hrange : isUserRange (spaceSystem.spaces 0) (1 <<< 39) pageSize true false
      spaceSystem.machine = true := by decide +kernel
  obtain ⟨page, hpage, hfree, hheld, -⟩ := isUserRange_own_pages spaceSystem_reachable hrange
    (1 <<< 39 + (pageSize - 1)) (by decide) (by decide)
  exact ⟨page, hpage, hfree, hheld⟩

end NasuaOS.Memory
