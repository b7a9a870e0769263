import NasuaOS.Memory.UserTables

/-!
# Life of user address spaces

Calls of `create_user_address_space`, `map_user_page`, `unmap_user_page`, `sync_kernel_mappings` and
`destroy_user_address_space` in any order, on any number of handles. The ledger of a handle follows
what the calls take from the free pages and give back to them; destroying a space returns its
ledger.
-/

namespace NasuaOS.Memory

open Base Function Finset

variable {s : System} {m : Machine} {h : Nat}

/-- The system after a call that took pages for a handle. Page 0 is what `alloc_page` returns when
it fails, so it is nobody's. -/
def System.grow (s : System) (h : Nat) (m : Machine) : System :=
  { s with
    machine := m
    ledger := update s.ledger h
      (s.ledger h ∪ (s.free \ freeSet m.pmm).erase 0) }

/-- A call took pages for a handle and put them below its root. -/
structure Grows (s : System) (h : Nat) (m : Machine) : Prop where
  sound : Sound (s.grow h m)
  free : freeSet m.pmm ⊆ s.free
  nodes : ∀ q a, s.node h q = some a → (s.spaces h).node m q = some a

private theorem Grows.of_same (hs : Sound ⟨m, s.spaces, s.held, s.ledger⟩)
    (hfree : freeSet m.pmm ⊆ s.free) (hzero : s.free.erase 0 ⊆ freeSet m.pmm)
    (hnodes : ∀ q a, s.node h q = some a → (s.spaces h).node m q = some a) : Grows s h m := by
  have hnone : (s.free \ freeSet m.pmm).erase 0 = ∅ := by
    rw [← erase_sdiff_comm, sdiff_eq_empty_iff_subset]
    exact hzero
  refine ⟨?_, hfree, hnodes⟩
  rw [System.grow, hnone, union_empty, update_eq_self]
  exact hs

private theorem Grows.refl (hs : Sound s) (h : Nat) : Grows s h s.machine :=
  .of_same hs (Subset.refl _) (erase_subset _ _) fun _ _ ha => ha

private theorem Sound.grows_pmm (hs : Sound s) (h : Nat) {pmm : Pmm} (hfree : freeSet pmm ⊆ s.free)
    (hzero : s.free.erase 0 ⊆ freeSet pmm) (htotal : pmm.totalPages = s.machine.pmm.totalPages) :
    Grows s h { s.machine with pmm := pmm } := by
  have htree (k : Nat) (a : Table) (i : Fin 512) :
      userChild { s.machine with pmm := pmm } (s.spaces k).pml4Index a i =
        userChild s.machine (s.spaces k).pml4Index a i := userChild_congr rfl _
  have hsame := hs.same (fun k _ a i _ => htree k a i) htotal
    (fun page hp => .inl (hfree hp)) (hs.held_spare hfree) hs.kernelHalf
  refine .of_same hsame hfree hzero ?_
  intro q a ha
  exact (walk_eq_of_reached (fun a i _ => htree h a i) q).trans ha

private theorem Grows.trans {m' : Machine} (hm : Grows s h m) (hm' : Grows (s.grow h m) h m') :
    Grows s h m' := by
  have hgrow : (s.grow h m).grow h m' = s.grow h m' := by
    have hset : s.ledger h ∪ (s.free \ freeSet m.pmm).erase 0 ∪
        ((s.grow h m).free \ freeSet m'.pmm).erase 0 =
        s.ledger h ∪ (s.free \ freeSet m'.pmm).erase 0 := by
      have hsub : freeSet m'.pmm ⊆ freeSet m.pmm := hm'.free
      have hfree := hm.free
      rw [union_assoc, ← erase_union_distrib]
      congr 2
      ext page
      have h₁ := @hsub page
      have h₂ := @hfree page
      simp only [mem_union, mem_sdiff, System.free, System.grow] at h₁ h₂ ⊢
      tauto
    simp only [System.grow, update_self, update_idem]
    rw [← hset]
    rfl
  refine ⟨hgrow ▸ hm'.sound, hm'.free.trans hm.free, ?_⟩
  intro q a ha
  exact hm'.nodes q a (hm.nodes q a ha)

private theorem present_or_pageUser (e : Nat) : present (e ||| pageUser) = present e := by
  rw [present_eq, Nat.testBit_or, present_eq]
  simp [pageUser]

private theorem tableFromEntry_or_pageUser (e : Nat) :
    tableFromEntry (e ||| pageUser) = tableFromEntry e := by
  have hmask : pageUser &&& pageMask = 0 := by decide
  rw [tableFromEntry, Nat.and_or_distrib_right, hmask, Nat.or_zero, tableFromEntry]

section Table

variable {p : List (Fin 512)} {n : Table} {i : Fin 512}

private theorem System.keepsBut_write (s : System) (frame e : Nat) (i : Fin 512) :
    s.KeepsBut (s.machine.write frame i e) frame i := by
  intro k _ q a _ j hne
  rw [Machine.write]
  dsimp only
  rw [if_neg]
  rintro ⟨hf, hj⟩
  exact hne.elim (fun hne => hne hf) (fun hne => hne hj)

private theorem Sound.grows_pageUser (hs : Sound s) (hv : s.Live h) (hn : s.node h p = some n)
    (hlevel : n.level < 3) (hi : n.level = 0 → i = (s.spaces h).pml4Index) :
    Grows s h (s.machine.write n.frame i (s.machine.mem n.frame i ||| pageUser)) := by
  have hkeeps := s.keepsBut_write n.frame (s.machine.mem n.frame i ||| pageUser) i
  have hword : (s.machine.write n.frame i (s.machine.mem n.frame i ||| pageUser)).mem n.frame i =
      s.machine.mem n.frame i ||| pageUser := if_pos ⟨rfl, rfl⟩
  have htree (k : Nat) (hk : s.Live k) (a : Table) (j : Fin 512)
      (ha : Reached (userChild s.machine (s.spaces k).pml4Index) (s.spaces k).root a) :
      userChild (s.machine.write n.frame i (s.machine.mem n.frame i ||| pageUser))
        (s.spaces k).pml4Index a j = userChild s.machine (s.spaces k).pml4Index a j := by
    by_cases hkh : k = h
    · subst hkh
      by_cases hsame : a = n ∧ j = i
      · obtain ⟨rfl, rfl⟩ := hsame
        rw [userChild, hword, present_or_pageUser, tableFromEntry_or_pageUser, userChild,
          if_neg (by omega : ¬a.level = 3), if_neg (by omega : ¬a.level = 3)]
      · exact hs.userChild_same hv hn hkeeps a j ha (not_and_or.mp hsame)
    · exact hs.userChild_other hv hn hkeeps hk hkh a j ha
  apply Grows.of_same
  · exact hs.same htree rfl (fun page hp => .inl hp) (hs.held_spare (Subset.refl _))
      (hs.kernelHalf_same hv hn hkeeps hi)
  · exact Subset.refl _
  · exact erase_subset _ _
  · intro q a ha
    exact (walk_eq_of_reached (htree h hv) q).trans ha

variable {page : Nat}

private theorem tableFromEntry_userTableEntry (hlt : page * pageSize < 2 ^ 64) :
    tableFromEntry (userTableEntry (page * pageSize)) = page * pageSize := by
  rw [userTableEntry, Nat.or_assoc, Nat.or_assoc]
  exact tableFromEntry_or (Nat.dvd_mul_left _ _) hlt (by decide)

private theorem present_userTableEntry (t : Nat) : present (userTableEntry t) = true := by
  rw [present_eq, userTableEntry, Nat.testBit_or, Nat.testBit_or, ← present_eq, present_or]
  rfl

/-- A page becomes an empty table below an entry. -/
def linkUserTable (m : Machine) (pmm : Pmm) (page table : Nat) (i : Fin 512) : Machine :=
  (Machine.fill { m with pmm := pmm } (page * pageSize) fun _ => 0).write table i
    (userTableEntry (page * pageSize))

private theorem linkUserTable_mem (m : Machine) (pmm : Pmm) (page table : Nat) (i : Fin 512) (f : Nat)
    (j : Fin 512) : (linkUserTable m pmm page table i).mem f j =
      if f = table ∧ j = i then userTableEntry (page * pageSize)
      else if f = page * pageSize then 0 else m.mem f j :=
  rfl

private theorem Sound.keepsBut_linkUserTable (hs : Sound s) (hpage : page ∈ s.free) (pmm : Pmm)
    (table : Nat) (i : Fin 512) :
    s.KeepsBut (linkUserTable s.machine pmm page table i) table i := by
  intro k hk q a ha j hother
  rw [linkUserTable_mem, if_neg, if_neg (hs.frame_ne_of_spare (.inl hpage) hk ha)]
  rintro ⟨hf, hj⟩
  exact hother.elim (fun hother => hother hf) (fun hother => hother hj)

private theorem Sound.userChild_linkUserTable (hs : Sound s) (hlevel : n.level < 3)
    (hi : n.level = 0 → i = (s.spaces h).pml4Index) (hpage : page ∈ s.free) (pmm : Pmm) :
    userChild (linkUserTable s.machine pmm page n.frame i) (s.spaces h).pml4Index n i =
      some ⟨n.level + 1, page * pageSize⟩ := by
  have hword : (linkUserTable s.machine pmm page n.frame i).mem n.frame i =
      userTableEntry (page * pageSize) := by
    rw [linkUserTable_mem, if_pos ⟨rfl, rfl⟩]
  rw [userChild_table hlevel hi (by rw [hword]; exact present_userTableEntry _), hword,
    tableFromEntry_userTableEntry (hs.address_lt (.inl hpage))]

private theorem Sound.linkUserTable_bare (hs : Sound s) (hv : s.Live h) (hn : s.node h p = some n)
    (hpage : page ∈ s.free) (pmm : Pmm) (i j : Fin 512) :
    (linkUserTable s.machine pmm page n.frame i).mem (page * pageSize) j = 0 := by
  have hframe : n.frame ≠ page * pageSize := hs.frame_ne_of_spare (.inl hpage) hv hn
  rw [linkUserTable_mem, if_neg (fun hboth => hframe hboth.1.symm), if_pos rfl]

private theorem Sound.grows_createTable (hs : Sound s) (hv : s.Live h) (hn : s.node h p = some n)
    (hlevel : n.level < 3) (hi : n.level = 0 → i = (s.spaces h).pml4Index)
    (habsent : present (s.machine.mem n.frame i) = false) {pmm : Pmm} (hpage : page ∈ s.free)
    (hfree : freeSet pmm = s.free.erase page) (htotal : pmm.totalPages = s.machine.pmm.totalPages)
    (hne : page * pageSize ≠ 0) : Grows s h (linkUserTable s.machine pmm page n.frame i) ∧
      (s.spaces h).node (linkUserTable s.machine pmm page n.frame i) (p ++ [i]) =
          some ⟨n.level + 1, page * pageSize⟩ := by
  have hzero := left_ne_zero_of_mul hne
  have hedge := hs.userChild_linkUserTable hlevel hi hpage pmm
  have hkeeps := hs.keepsBut_linkUserTable hpage pmm n.frame i
  have hbare (j : Fin 512) : userChild (linkUserTable s.machine pmm page n.frame i)
      (s.spaces h).pml4Index ⟨n.level + 1, page * pageSize⟩ j = none := by
    apply userChild_absent
    rw [hs.linkUserTable_bare hv hn hpage, present_zero]
  have hpmm : (linkUserTable s.machine pmm page n.frame i).pmm = pmm := rfl
  generalize linkUserTable s.machine pmm page n.frame i = m at hedge hkeeps hbare hpmm ⊢
  have hheld : s.held ⊆ s.held.erase page :=
    subset_erase.mpr ⟨Subset.refl _, fun hmem => (hs.held page hmem).2.2 hpage⟩
  obtain ⟨hsound, hnode, hnodes⟩ := hs.graft_entry hv hn hkeeps hi habsent hedge hbare rfl hzero
    (.inl hpage) (by rw [hpmm]; exact htotal) (by rw [hpmm, hfree]) hheld
  refine ⟨⟨?_, ?_, hnodes⟩, hnode⟩
  · have htaken : (s.free \ freeSet m.pmm).erase 0 = {page} := by
      rw [hpmm, hfree, sdiff_erase_self hpage, erase_eq_of_notMem]
      simpa using hzero.symm
    rw [System.grow, htaken, union_comm, ← insert_eq]
    exact hsound
  · rw [hpmm, hfree]
    exact erase_subset _ _

private theorem Sound.userTable_spec (hs : Sound s) (hv : s.Live h) (hn : s.node h p = some n)
    (hlevel : n.level < 3) (hi : n.level = 0 → i = (s.spaces h).pml4Index) {create below : Bool}
    {r : Option Nat} (hcall : userTable create below n.frame i s.machine = (r, m)) :
    Grows s h m ∧ (create = false → m = s.machine) ∧
      ∀ t, r = some t → (s.spaces h).node m (p ++ [i]) = some ⟨n.level + 1, t⟩ := by
  have hbelow (hp : present (s.machine.mem n.frame i) = true) :
      s.node h (p ++ [i]) = some ⟨n.level + 1, tableFromEntry (s.machine.mem n.frame i)⟩ :=
    (walk_snoc hn i).trans (userChild_table hlevel hi hp)
  unfold userTable at hcall
  split at hcall
  · next habsent =>
    split at hcall
    · cases hcall
      exact ⟨.refl hs h, fun _ => rfl, nofun⟩
    next hcreate =>
    rcases createTable_cases s.machine with
      ⟨pmm, hfree, hzero, htotal, heq⟩ | ⟨page, pmm, hpage, hfree, htotal, hne, heq⟩
    · rw [heq] at hcall
      cases hcall
      exact ⟨hs.grows_pmm h hfree hzero htotal, fun h => absurd h hcreate, nofun⟩
    · rw [heq] at hcall
      obtain ⟨hgrows, hnode⟩ :=
        hs.grows_createTable hv hn hlevel hi habsent hpage hfree htotal hne
      dsimp only at hcall
      rw [tableFromEntry_userTableEntry (hs.address_lt (.inl hpage))] at hcall
      cases hcall
      refine ⟨hgrows, fun h => absurd h hcreate, ?_⟩
      rintro _ ⟨⟩
      exact hnode
  · next hpresent =>
    rw [Bool.not_eq_false] at hpresent
    split at hcall
    · split at hcall
      · cases hcall
        exact ⟨.refl hs h, fun _ => rfl, nofun⟩
      next hcreate =>
      have hgrows := hs.grows_pageUser hv hn hlevel hi
      rw [tableFromEntry_or_pageUser] at hcall
      cases hcall
      refine ⟨hgrows, fun h => absurd h hcreate, ?_⟩
      rintro _ ⟨⟩
      exact hgrows.nodes _ _ (hbelow hpresent)
    · cases hcall
      refine ⟨.refl hs h, fun _ => rfl, ?_⟩
      rintro _ ⟨⟩
      exact hbelow hpresent

end Table

private theorem userTables_spec {create : Bool} {labels : List (Bool × Fin 512)}
    {p : List (Fin 512)} {n : Table} {r : Option Nat} (hs : Sound s) (hv : s.Live h)
    (hn : s.node h p = some n) (hlevel : n.level + labels.length ≤ 3)
    (hi : n.level = 0 → ∀ l ∈ labels.head?, l.2 = (s.spaces h).pml4Index)
    (hcall : userTables create n.frame labels s.machine = (r, m)) :
    Grows s h m ∧ (create = false → m = s.machine) ∧ ∀ t, r = some t →
      (s.spaces h).node m (p ++ labels.map Prod.snd) = some ⟨n.level + labels.length, t⟩ := by
  -- Along the labels; each level starts in the system that the one before left.
  induction labels generalizing s n p with
  | nil =>
    cases hcall
    refine ⟨.refl hs h, fun _ => rfl, ?_⟩
    rintro _ ⟨⟩
    rw [List.map_nil, List.append_nil]
    exact hn
  | cons l labels ih =>
    obtain ⟨below, i⟩ := l
    rw [List.length_cons] at hlevel
    rw [userTables] at hcall
    split at hcall
    · next m₁ heq =>
      cases hcall
      obtain ⟨hgrows, hfind, -⟩ :=
        hs.userTable_spec hv hn (by omega) (fun hzero => hi hzero _ rfl) heq
      exact ⟨hgrows, hfind, nofun⟩
    · next t m₁ heq =>
      obtain ⟨hgrows, hfind, hnode⟩ :=
        hs.userTable_spec hv hn (by omega) (fun hzero => hi hzero _ rfl) heq
      obtain ⟨hrest, hsame, hlast⟩ := ih hgrows.sound hv
        (hnode t rfl) (by dsimp only; omega) (fun hzero => by simp at hzero) hcall
      refine ⟨hgrows.trans hrest, fun hcreate => (hsame hcreate).trans (hfind hcreate), ?_⟩
      intro u hu
      have hlast := hlast u hu
      rw [List.append_assoc] at hlast
      rw [List.map_cons, List.length_cons, ← Nat.add_assoc, Nat.add_right_comm]
      exact hlast

/-- `get_user_leaf_table` takes pages for tables, and none without creation; the table it returns is
the last one for the address. -/
theorem Sound.getUserLeafTable_spec (hs : Sound s) {virt : Nat} {create : Bool} {r : Option Nat}
    (hcall : getUserLeafTable (s.spaces h) virt create s.machine = (r, m)) :
    Grows s h m ∧ (create = false → m = s.machine) ∧ ∀ t, r = some t →
      s.Live h ∧ (s.spaces h).node m (tableIndices virt) = some ⟨3, t⟩ := by
  unfold getUserLeafTable at hcall
  split at hcall
  · cases hcall
    exact ⟨.refl hs h, fun _ => rfl, nofun⟩
  · next hguard =>
    have hindex : (s.spaces h).pml4Index = tableIndex virt 39 := by
      by_contra hne
      exact hguard (.inr (.inr (.inr (Ne.symm hne))))
    have hv : s.Live h := by
      by_contra hinvalid
      exact hguard (.inl (Bool.not_eq_true _ ▸ hinvalid))
    obtain ⟨hgrows, hfind, hnode⟩ := userTables_spec hs hv (p := []) rfl
      (by exact Nat.le_refl 3) (by rintro - l ⟨⟩; rfl) hcall
    rw [tableIndices, ← hindex]
    exact ⟨hgrows, hfind, fun t ht => ⟨hv, hnode t ht⟩⟩

private theorem lt_of_and_eq_zero {phys : Nat} (hlt : phys < 2 ^ 64)
    (hmask : phys &&& 0xFFF0000000000FFF = 0) : phys < 2 ^ 52 := by
  apply Nat.lt_pow_two_of_testBit
  intro i hi
  by_cases hhigh : i < 64
  · have hbit := congrArg (fun n => n.testBit i) hmask
    have hrange : 0xFFF0000000000FFF = bitRange 0 12 ||| bitRange 52 64 := by decide
    simp only [Nat.testBit_and, hrange, Nat.testBit_or, testBit_bitRange, Nat.zero_testBit] at hbit
    simpa [hi, hhigh] using hbit
  · exact Nat.testBit_lt_two_pow
      (Nat.lt_of_lt_of_le hlt (Nat.pow_le_pow_right (by decide) (by omega)))

/-- What `map_user_page` does with a page that is held: it fails and takes at most pages for tables,
or the page goes from the holder to the space. -/
theorem Sound.mapUserPage_cases (hs : Sound s) (virt : Nat) {page : Nat} (hpage : page ∈ s.held)
    (flags : PageFlags) : (∃ m₁, Grows s h m₁ ∧
      mapUserPage (s.spaces h) virt (page * pageSize) flags.bits s.machine = (false, m₁)) ∨
    ∃ m₁, freeSet m₁.pmm ⊆ s.free ∧ Sound ⟨m₁, s.spaces, s.held.erase page,
        update s.ledger h (insert page ((s.grow h m₁).ledger h))⟩ ∧
      (∃ q, (s.spaces h).node m₁ q = some ⟨4, page * pageSize⟩) ∧
      mapUserPage (s.spaces h) virt (page * pageSize) flags.bits s.machine = (true, m₁) := by
  unfold mapUserPage
  split
  · exact .inl ⟨s.machine, .refl hs h, rfl⟩
  next hguard =>
  split
  · next m₁ heq => exact .inl ⟨m₁, (hs.getUserLeafTable_spec heq).1, rfl⟩
  next pt m₁ heq =>
  obtain ⟨hgrows, -, hnode⟩ := hs.getUserLeafTable_spec heq
  obtain ⟨hv, hnode⟩ := hnode pt rfl
  split
  · exact .inl ⟨m₁, hgrows, rfl⟩
  next habsent =>
  rw [Bool.not_eq_true] at habsent
  obtain ⟨hne, -, hnot⟩ := hs.held page hpage
  have hsmall : page * pageSize < 2 ^ 52 := by
    apply lt_of_and_eq_zero (hs.address_lt (.inr hpage))
    by_contra hmask
    exact hguard (.inr (.inr (.inl hmask)))
  right
  -- The entry of the last table now leads to the page.
  have hword : (m₁.write pt (tableIndex virt 12) (leafEntry (page * pageSize) flags.bits)).mem pt
      (tableIndex virt 12) = leafEntry (page * pageSize) flags.bits := if_pos ⟨rfl, rfl⟩
  have hedge : userChild
      (m₁.write pt (tableIndex virt 12) (leafEntry (page * pageSize) flags.bits))
      (s.spaces h).pml4Index ⟨3, pt⟩ (tableIndex virt 12) = some ⟨4, page * pageSize⟩ := by
    rw [userChild_page _ rfl (by rw [hword]; exact present_leafEntry _ _), hword,
      frameOf_leafEntry flags (Nat.dvd_mul_left _ _) hsmall]
  have hfree : freeSet m₁.pmm ⊆ (freeSet m₁.pmm).erase page :=
    subset_erase.mpr ⟨Subset.refl _, fun hmem => hnot (hgrows.free hmem)⟩
  obtain ⟨hsound, hleaf, -⟩ := hgrows.sound.graft_entry hv hnode
    ((s.grow h m₁).keepsBut_write pt (leafEntry (page * pageSize) flags.bits) _)
    (fun hzero => by simp at hzero) habsent hedge (fun _ => userChild_leaf (Nat.lt_irrefl 4) _) rfl
    hne (.inr hpage) rfl hfree (Subset.refl _)
  refine ⟨_, ?_, ?_, ⟨_, hleaf⟩, rfl⟩
  · exact hgrows.free
  · simp only [System.grow, update_self, update_idem] at hsound ⊢
    exact hsound

/-- What `unmap_user_page` does: nothing, or a page goes from the space to the free pages. -/
theorem Sound.unmapUserPage_cases (hs : Sound s) (h virt : Nat) :
    unmapUserPage (s.spaces h) virt s.machine = (false, s.machine) ∨
    ∃ m₁, ∃ page ∈ s.ledger h, page ∉ s.free ∧ freeSet m₁.pmm = insert page s.free ∧
      Sound ⟨m₁, s.spaces, s.held, update s.ledger h ((s.ledger h).erase page)⟩ ∧
      unmapUserPage (s.spaces h) virt s.machine = (true, m₁) := by
  unfold unmapUserPage
  split
  · exact .inl rfl
  split
  · next m₁ heq => exact .inl (congrArg _ ((hs.getUserLeafTable_spec heq).2.1 rfl))
  next pt m₁ heq =>
  obtain ⟨-, hmachine, hnode⟩ := hs.getUserLeafTable_spec heq
  obtain ⟨hv, hn⟩ := hnode pt rfl
  obtain rfl : m₁ = s.machine := hmachine rfl
  split
  · exact .inl rfl
  next hpresent =>
  rw [Bool.not_eq_false] at hpresent
  have hedge := userChild_page (n := ⟨3, pt⟩) (s.spaces h).pml4Index rfl hpresent
  have hleaf : s.node h (tableIndices virt ++ [tableIndex virt 12]) =
      some ⟨4, frameOf (s.machine.mem pt (tableIndex virt 12))⟩ := (walk_snoc hn _).trans hedge
  obtain ⟨page, hpage, hne, hlt, hfree, hheld⟩ := hs.placed h hv _ _ hleaf
  obtain ⟨hfree', htotal⟩ := freeSet_freePage hne hlt hfree
  dsimp only at hpage
  right
  refine ⟨(s.machine.write pt (tableIndex virt 12) 0).free (page * pageSize), page,
    (hs.ledger h hv page).mpr ⟨_, _, hleaf, hpage⟩, hfree, hfree', ?_, by rw [hpage]⟩
  have hword : ((s.machine.write pt (tableIndex virt 12) 0).free (page * pageSize)).mem pt
      (tableIndex virt 12) = 0 := if_pos ⟨rfl, rfl⟩
  have hkeeps : s.KeepsBut ((s.machine.write pt (tableIndex virt 12) 0).free (page * pageSize)) pt
      (tableIndex virt 12) := s.keepsBut_write pt 0 _
  exact hs.prune hv hn hkeeps (fun hzero => by simp at hzero) (by rw [hword]; rfl) hedge
    (fun _ => userChild_leaf (Nat.lt_irrefl 4) _) hpage hheld htotal hfree'

/-- An empty handle is not live. -/
theorem not_live_update {spaces : Nat → UserAddressSpace} {held : Finset Nat}
    {ledger : Nat → Finset Nat} {k : Nat}
    (hk : System.Live ⟨m, update spaces h .empty, held, ledger⟩ k) :
    k ≠ h ∧ (spaces k).valid = true := by
  rw [System.Live] at hk
  dsimp only at hk
  rw [update_apply] at hk
  split at hk
  · cases hk
  · next hkh => exact ⟨hkh, hk⟩

private theorem System.node_congr {k : Nat}
    (hmem : ∀ q a, s.node k q = some a → m.mem a.frame = s.machine.mem a.frame)
    (q : List (Fin 512)) : (s.spaces k).node m q = s.node k q := by
  apply walk_eq_of_reached
  rintro a i ⟨r, ha⟩
  exact userChild_congr (congrFun (hmem r a ha) i) _

/-- A handle becomes empty; the pages of its space may become free. -/
theorem Sound.clear (hs : Sound s) (h : Nat) (taken : Finset Nat)
    (hmem : ∀ k, s.Live k → ∀ q a, s.node k q = some a → m.mem a.frame = s.machine.mem a.frame)
    (htotal : m.pmm.totalPages = s.machine.pmm.totalPages)
    (hfree : ∀ page ∈ freeSet m.pmm, page ∈ s.free ∨ s.Live h ∧ page ∈ s.ledger h) :
    Sound ⟨m, update s.spaces h .empty, s.held, update s.ledger h taken⟩ := by
  have hspace (k : Nat) (hkh : k ≠ h) : update s.spaces h .empty k = s.spaces k :=
    update_of_ne hkh _ _
  have hsame (k : Nat) (hk : System.Live ⟨m, update s.spaces h .empty, s.held,
      update s.ledger h taken⟩ k) (q : List (Fin 512)) :
      System.node ⟨m, update s.spaces h .empty, s.held,
        update s.ledger h taken⟩ k q = s.node k q := by
    obtain ⟨hkh, hlive⟩ := not_live_update hk
    rw [System.node]
    dsimp only
    rw [hspace k hkh, System.node_congr (hmem k hlive)]
  apply hs.shrink
  case hlive => exact fun k hk => (not_live_update hk).2
  case hspaces => exact fun k hk => hspace k (not_live_update hk).1
  case hnode => exact fun k hk q a ha => (hsame k hk q).symm.trans ha
  case htotal => exact htotal
  case hspare =>
    rintro page (hp | hp)
    · rcases hfree page hp with hp | ⟨hv, hp⟩
      · exact .inl (.inl hp)
      · right
        intro k hk q a ha heq
        obtain ⟨hkh, hlive⟩ := not_live_update hk
        obtain ⟨r, b, hb, hbframe⟩ := (hs.ledger h hv page).mp hp
        have hold := (hsame k hk q).symm.trans ha
        exact hkh (hs.apart k h hlive hv q r a b hold hb (heq.trans hbframe.symm)).1
    · exact .inl (.inr hp)
  case hheld =>
    intro page hp
    obtain ⟨hne, hlt, hnot⟩ := hs.held page hp
    refine ⟨hne, hlt, fun hmem => ?_⟩
    rcases hfree page hmem with hmem | ⟨hv, hmem⟩
    · exact hnot hmem
    · obtain ⟨q, a, ha, heq⟩ := (hs.ledger h hv page).mp hmem
      exact hs.frame_ne_of_spare (.inr hp) hv ha heq
  case hledger =>
    intro k hk page
    obtain ⟨hkh, hlive⟩ := not_live_update hk
    simp only [hsame k hk]
    rw [update_of_ne hkh]
    exact hs.ledger k hlive page
  case hhalf =>
    intro k hk i hi
    obtain ⟨-, hlive⟩ := not_live_update hk
    have hroot := hmem k hlive [] (s.spaces k).root rfl
    rw [show (s.spaces k).rootPhys = (s.spaces k).root.frame from rfl, hroot]
    exact hs.kernelHalf k hlive i hi

private theorem freeUserIndex_le (m : Machine) (count index : Nat) :
    freeUserIndex m count index ≤ index + count := by
  induction count generalizing index with
  | zero => exact le_rfl
  | succ count ih =>
    rw [freeUserIndex]
    split
    · have hle := ih (index + 1)
      omega
    · omega

/-- An entry of the kernel half carries no `PAGE_USER`. -/
theorem user_kernelEntry (e : Nat) : user (kernelEntry e) = false := by
  rw [user_eq, kernelEntry, Nat.testBit_and]
  have hbit : (0xFFFFFFFFFFFFFFFB : Nat).testBit 2 = false := by decide
  rw [hbit, Bool.and_false]

private theorem UserAddressSpace.node_bare {space : UserAddressSpace}
    (habsent : present (m.mem space.rootPhys space.pml4Index) = false) {q : List (Fin 512)}
    {a : Table} (ha : space.node m q = some a) : q = [] ∧ a = space.root := by
  cases q with
  | nil =>
    cases ha
    exact ⟨rfl, rfl⟩
  | cons i q =>
    rw [node, walk] at ha
    have hnone : userChild m space.pml4Index space.root i = none := by
      rw [userChild, if_neg]
      rintro ⟨-, hi, hp⟩
      rw [hi rfl] at hp
      change present (m.mem space.rootPhys space.pml4Index) = true at hp
      rw [habsent] at hp
      cases hp
    rw [hnone] at ha
    cases ha

private theorem Sound.addSpace (hs : Sound s) (h : Nat) (space : UserAddressSpace) {page : Nat}
    (hroot : space.rootPhys = page * pageSize) (hne : page ≠ 0) (hindex : space.pml4Index.val < 256)
    (hlt : page < s.machine.pmm.totalPages) (hfree : page ∉ s.free) (hheld : page ∉ s.held)
    (hfresh : ∀ k, s.Live k → ∀ q a, s.node k q = some a → a.frame ≠ page * pageSize)
    (habsent : present (s.machine.mem (page * pageSize) space.pml4Index) = false)
    (hhalf : ∀ i : Fin 512, 256 ≤ i.val → user (s.machine.mem (page * pageSize) i) = false) :
    Sound { s with
      spaces := update s.spaces h space
      ledger := update s.ledger h {page} } := by
  generalize hnew : ({ s with
    spaces := update s.spaces h space
    ledger := update s.ledger h {page} } : System) = s'
  have hmachine : s'.machine = s.machine := by rw [← hnew]
  have hself : s'.spaces h = space := by
    rw [← hnew]
    exact update_self _ _ _
  have hother (k : Nat) (hkh : k ≠ h) : s'.spaces k = s.spaces k := by
    rw [← hnew]
    exact update_of_ne hkh _ _
  have hlive (k : Nat) (hkh : k ≠ h) (hk : s'.Live k) : s.Live k := by
    rw [System.Live, hother k hkh] at hk
    exact hk
  have hnode (k : Nat) (hkh : k ≠ h) (q : List (Fin 512)) : s'.node k q = s.node k q := by
    rw [System.node, hmachine, hother k hkh, System.node]
  -- The new space is its root alone.
  have hbare (q : List (Fin 512)) (a : Table) (ha : s'.node h q = some a) :
      q = [] ∧ a.frame = page * pageSize := by
    rw [System.node, hmachine, hself] at ha
    obtain ⟨hq, rfl⟩ := UserAddressSpace.node_bare (by rw [hroot]; exact habsent) ha
    exact ⟨hq, hroot⟩
  have hfree' : s'.free = s.free := by rw [System.free, hmachine, System.free]
  have hheld' : s'.held = s.held := by rw [← hnew]
  constructor
  case bounded =>
    rw [hmachine]
    exact hs.bounded
  case held =>
    rw [hheld', hmachine, hfree']
    exact hs.held
  case index =>
    intro k hk
    by_cases hkh : k = h
    · rw [hkh, hself]
      exact hindex
    · rw [hother k hkh]
      exact hs.index k (hlive k hkh hk)
  case placed =>
    intro k hk q a ha
    unfold System.Placed
    rw [hmachine, hfree', hheld']
    by_cases hkh : k = h
    · subst hkh
      exact ⟨page, (hbare q a ha).2, hne, hlt, hfree, hheld⟩
    · rw [hnode k hkh] at ha
      exact hs.placed k (hlive k hkh hk) q a ha
  case apart =>
    intro k l hk hl q r a b ha hb heq
    by_cases hkh : k = h
    · by_cases hlh : l = h
      · rw [hkh] at ha
        rw [hlh] at hb
        exact ⟨hkh.trans hlh.symm, (hbare q a ha).1.trans (hbare r b hb).1.symm⟩
      · rw [hkh] at ha
        rw [hnode l hlh] at hb
        exact absurd (heq.symm.trans (hbare q a ha).2) (hfresh l (hlive l hlh hl) r b hb)
    · rw [hnode k hkh] at ha
      by_cases hlh : l = h
      · rw [hlh] at hb
        exact absurd (heq.trans (hbare r b hb).2) (hfresh k (hlive k hkh hk) q a ha)
      · rw [hnode l hlh] at hb
        exact hs.apart k l (hlive k hkh hk) (hlive l hlh hl) q r a b ha hb heq
  case ledger =>
    intro k hk other
    have hledger : s'.ledger = update s.ledger h {page} := by rw [← hnew]
    rw [hledger]
    by_cases hkh : k = h
    · subst hkh
      rw [update_self, mem_singleton]
      constructor
      · rintro rfl
        exact ⟨[], (s'.spaces k).root, rfl, by rw [hself]; exact hroot⟩
      · rintro ⟨q, a, ha, heq⟩
        exact Nat.eq_of_mul_eq_mul_right (by decide) (heq.symm.trans (hbare q a ha).2)
    · rw [update_of_ne hkh]
      simp only [hnode k hkh]
      exact hs.ledger k (hlive k hkh hk) other
  case kernelHalf =>
    intro k hk i hi
    rw [hmachine]
    by_cases hkh : k = h
    · rw [hkh, hself, hroot]
      exact hhalf i hi
    · rw [hother k hkh]
      exact hs.kernelHalf k (hlive k hkh hk) i hi

/-- `create_user_address_space` on a handle. -/
def System.create (s : System) (h : Nat) : System where
  machine := (createUserAddressSpace s.machine).2.2
  spaces := update s.spaces h (createUserAddressSpace s.machine).2.1
  held := s.held
  ledger := update s.ledger h
    ((s.free \ freeSet (createUserAddressSpace s.machine).2.2.pmm).erase 0)

/-- The words of a new root. -/
def rootWords (m : Machine) (i : Fin 512) : Nat :=
  if 256 ≤ i.val then kernelEntry (m.mem m.pml4 i) else 0

private theorem createUserAddressSpace_cases (m : Machine) :
    (∃ m₁, (∀ f, (∀ page ∈ freeSet m.pmm, f ≠ page * pageSize) → m₁.mem f = m.mem f) ∧
      m₁.pmm.totalPages = m.pmm.totalPages ∧ freeSet m₁.pmm ⊆ freeSet m.pmm ∧
      (freeSet m.pmm).erase 0 ⊆ freeSet m₁.pmm ∧
      createUserAddressSpace m = (false, .empty, m₁)) ∨
    ∃ page index pmm, page ∈ freeSet m.pmm ∧ page ≠ 0 ∧ index < 256 ∧
      freeSet pmm = (freeSet m.pmm).erase page ∧ pmm.totalPages = m.pmm.totalPages ∧
      createUserAddressSpace m =
        (true, ⟨page * pageSize, index <<< 39, Fin.ofNat 512 index, true⟩,
          Machine.fill { m with pmm := pmm } (page * pageSize) (rootWords m)) := by
  unfold createUserAddressSpace
  rcases takePage_cases m with ⟨-, heq⟩ | ⟨page, pmm, hpage, hfree, htotal, heq⟩
  · left
    rw [heq]
    exact ⟨m, fun _ _ => rfl, rfl, Subset.refl _, erase_subset _ _, if_pos rfl⟩
  rw [heq]
  have hsub : freeSet pmm ⊆ freeSet m.pmm := hfree ▸ erase_subset _ _
  by_cases hne : page * pageSize = 0
  · left
    obtain rfl : page = 0 := (Nat.mul_eq_zero.mp hne).resolve_right (by decide)
    exact ⟨{ m with pmm := pmm }, fun _ _ => rfl, htotal, hsub, hfree.ge, if_pos hne⟩
  have hzero := left_ne_zero_of_mul hne
  dsimp only
  rw [if_neg hne]
  change (∃ m₁, _ ∧ _ ∧ _ ∧ _ ∧ (if freeUserIndex (Machine.fill { m with pmm := pmm }
    (page * pageSize) (rootWords m)) 255 1 = 256 then _ else _) = _) ∨ _
  generalize hindex : freeUserIndex (Machine.fill { m with pmm := pmm } (page * pageSize)
    (rootWords m)) 255 1 = index
  have hle : index ≤ 1 + 255 := hindex ▸ freeUserIndex_le _ 255 1
  by_cases hlast : index = 256
  · left
    -- No root entry is left: the page goes back.
    obtain ⟨hback, hbacktotal⟩ := freeSet_freePage hzero
      (by rw [htotal]; exact (mem_freeSet.mp hpage).1)
      (by rw [hfree]; exact notMem_erase _ _)
    have hsame : freeSet (freePage pmm (page * pageSize)) = freeSet m.pmm := by
      rw [hback, hfree, insert_erase hpage]
    refine ⟨(Machine.fill { m with pmm := pmm } (page * pageSize) (rootWords m)).free
      (page * pageSize), ?_, hbacktotal.trans htotal, hsame.le,
      (erase_subset _ _).trans hsame.ge, if_pos hlast⟩
    intro f hf
    ext j
    exact if_neg (hf page hpage)
  · right
    refine ⟨page, index, pmm, hpage, hzero, by omega, hfree, htotal, ?_⟩
    rw [← hindex]
    exact if_neg (hindex ▸ hlast)

/-- Creating a space keeps everything in its place. -/
theorem Sound.create (hs : Sound s) (h : Nat) : Sound (s.create h) := by
  unfold System.create
  rcases createUserAddressSpace_cases s.machine with
    ⟨m₁, hmem, htotal, hfree, -, heq⟩ | ⟨page, index, pmm, hpage, hne, hindex, hfree, htotal, heq⟩
  · rw [heq]
    refine hs.clear h _ ?_ htotal fun _ hp => .inl (hfree hp)
    intro k hk q a ha
    apply hmem
    intro page hpage
    exact hs.frame_ne_of_spare (.inl hpage) hk ha
  rw [heq]
  have hfresh (k : Nat) (hk : s.Live k) (q : List (Fin 512)) (a : Table)
      (ha : s.node k q = some a) : a.frame ≠ page * pageSize :=
    hs.frame_ne_of_spare (.inl hpage) hk ha
  have htaken : (s.free \ freeSet pmm).erase 0 = {page} := by
    rw [hfree, System.free, sdiff_erase_self hpage, erase_eq_of_notMem]
    simpa using hne.symm
  have hword (i : Fin 512) : (Machine.fill { s.machine with pmm := pmm } (page * pageSize)
      (rootWords s.machine)).mem (page * pageSize) i = rootWords s.machine i := if_pos rfl
  have hmem (k : Nat) (hk : s.Live k) (q : List (Fin 512)) (a : Table)
      (ha : s.node k q = some a) : (Machine.fill { s.machine with pmm := pmm } (page * pageSize)
        (rootWords s.machine)).mem a.frame = s.machine.mem a.frame := by
    ext j
    exact if_neg (hfresh k hk q a ha)
  -- The handle is cleared first and then gets the new root.
  have hclear := hs.clear h ∅ hmem htotal fun _ hp => .inl (mem_of_mem_erase (hfree ▸ hp))
  have hval : (Fin.ofNat 512 index).val = index := by
    rw [Fin.val_ofNat]
    omega
  have hgone : page ∉ freeSet pmm := by
    rw [hfree]
    exact notMem_erase _ _
  have hplace : page < pmm.totalPages := by
    rw [htotal]
    exact (mem_freeSet.mp hpage).1
  have hadd := hclear.addSpace h ⟨page * pageSize, index <<< 39, Fin.ofNat 512 index, true⟩ rfl hne
    (by dsimp only; omega) hplace hgone (fun hheld => (hs.held page hheld).2.2 hpage)
  rw [update_idem, update_idem] at hadd
  change Sound ⟨_, _, _, update s.ledger h ((s.free \ freeSet pmm).erase 0)⟩
  rw [htaken]
  apply hadd
  case hfresh =>
    intro k hk q a ha
    obtain ⟨hkh, hlive⟩ := not_live_update hk
    rw [System.node] at ha
    dsimp only at ha
    rw [update_of_ne hkh, System.node_congr (hmem k hlive)] at ha
    exact hfresh k hlive q a ha
  case habsent =>
    dsimp only
    rw [hword, rootWords, if_neg (by omega)]
    rfl
  case hhalf =>
    intro i hi
    rw [hword, rootWords, if_pos hi]
    exact user_kernelEntry _

end NasuaOS.Memory
