import NasuaOS.Memory.Tables

/-!
# Frames of user address spaces

The root of a user address space, the tables below its one user entry and the pages mapped there
form a tree. Over all live spaces no frame stands in two places, none is free, and none is a page
that a client still holds.
-/

namespace NasuaOS.Memory

open Base Function Finset

/-- The table or page below an entry of a user space. Of the root only one entry counts; pages have
level 4. -/
def userChild (m : Machine) (index : Fin 512) (n : Table) (i : Fin 512) : Option Table :=
  if n.level < 4 ∧ (n.level = 0 → i = index) ∧ present (m.mem n.frame i) = true then
    some ⟨n.level + 1,
      if n.level = 3 then frameOf (m.mem n.frame i) else tableFromEntry (m.mem n.frame i)⟩
  else none

variable {m : Machine} {n : Table} {i : Fin 512}

/-- Only the word of the entry matters. -/
theorem userChild_congr {m' : Machine} (h : m'.mem n.frame i = m.mem n.frame i) (index : Fin 512) :
    userChild m' index n i = userChild m index n i := by
  rw [userChild, h, userChild]

/-- An absent entry has nothing below. -/
theorem userChild_absent (h : present (m.mem n.frame i) = false) (index : Fin 512) :
    userChild m index n i = none := by
  rw [userChild, if_neg]
  rintro ⟨-, -, hp⟩
  rw [h] at hp
  cases hp

/-- Below a present entry of a table above the last ones there is a table. -/
theorem userChild_table {index : Fin 512} (hlevel : n.level < 3) (hi : n.level = 0 → i = index)
    (hp : present (m.mem n.frame i) = true) :
    userChild m index n i = some ⟨n.level + 1, tableFromEntry (m.mem n.frame i)⟩ := by
  rw [userChild, if_pos ⟨by omega, hi, hp⟩, if_neg (by omega)]

/-- Nothing is below a page. -/
theorem userChild_leaf (h : ¬n.level < 4) (index : Fin 512) : userChild m index n i = none :=
  if_neg fun hall => h hall.1

/-- Below a present entry of a last table there is a page. -/
theorem userChild_page (index : Fin 512) (hlevel : n.level = 3)
    (hp : present (m.mem n.frame i) = true) :
    userChild m index n i = some ⟨4, frameOf (m.mem n.frame i)⟩ := by
  rw [userChild, if_pos ⟨by omega, fun hzero => by omega, hp⟩, if_pos hlevel, hlevel]

namespace UserAddressSpace

/-- The root of a space. -/
def root (space : UserAddressSpace) : Table := ⟨0, space.rootPhys⟩

/-- The table or page of a space along indices. -/
def node (space : UserAddressSpace) (m : Machine) (q : List (Fin 512)) : Option Table :=
  walk (userChild m space.pml4Index) space.root q

variable {space : UserAddressSpace}

/-- The level of a table or page is the number of entries that lead to it. -/
theorem level_of_node {m : Machine} {q : List (Fin 512)} {a : Table} (h : space.node m q = some a) :
    a.level = q.length := by
  induction q using List.reverseRecOn generalizing a with
  | nil =>
    cases h
    rfl
  | append_singleton q i ih =>
    obtain ⟨b, hb, hc⟩ := walk_concat h
    rw [userChild, Option.ite_none_right_eq_some] at hc
    obtain ⟨-, hc⟩ := hc
    cases hc
    rw [List.length_append, ← ih hb]
    rfl

/-- Nothing is below the pages. -/
theorem level_le_of_node {m : Machine} {q : List (Fin 512)} {a : Table}
    (h : space.node m q = some a) : a.level ≤ 4 := by
  cases q using List.reverseRecOn with
  | nil =>
    cases h
    exact Nat.zero_le _
  | append_singleton q i =>
    obtain ⟨b, -, hc⟩ := walk_concat h
    rw [userChild, Option.ite_none_right_eq_some] at hc
    obtain ⟨⟨hlevel, -⟩, hc⟩ := hc
    cases hc
    exact hlevel

end UserAddressSpace

/-- The machine, the handles, the pages that clients hold, and for each handle the pages that its
space took or was given and did not return. -/
structure System where
  machine : Machine
  spaces : Nat → UserAddressSpace
  held : Finset Nat
  ledger : Nat → Finset Nat

namespace System

variable (s : System)

/-- The handle has a space. -/
def Live (h : Nat) : Prop := (s.spaces h).valid = true

/-- The table or page of a handle along indices. -/
def node (h : Nat) (q : List (Fin 512)) : Option Table := (s.spaces h).node s.machine q

/-- The free pages. -/
def free : Finset Nat := freeSet s.machine.pmm

/-- A page that stands in some place: not 0, not free and not held by a client. -/
def Placed (frame : Nat) : Prop :=
  ∃ page, frame = page * pageSize ∧ page ≠ 0 ∧ page < s.machine.pmm.totalPages ∧
    page ∉ s.free ∧ page ∉ s.held

end System

/-- What holds between calls. -/
structure Sound (s : System) : Prop where
  bounded : s.machine.pmm.totalPages * pageSize ≤ 2 ^ 64
  held : ∀ page ∈ s.held, page ≠ 0 ∧ page < s.machine.pmm.totalPages ∧ page ∉ s.free
  index : ∀ h, s.Live h → (s.spaces h).pml4Index.val < 256
  placed : ∀ h, s.Live h → ∀ q a, s.node h q = some a → s.Placed a.frame
  apart : ∀ h k, s.Live h → s.Live k → ∀ q r a b, s.node h q = some a → s.node k r = some b →
    a.frame = b.frame → h = k ∧ q = r
  ledger : ∀ h, s.Live h → ∀ page, page ∈ s.ledger h ↔
    ∃ q a, s.node h q = some a ∧ a.frame = page * pageSize
  kernelHalf : ∀ h, s.Live h → ∀ i : Fin 512, 256 ≤ i.val →
    user (s.machine.mem (s.spaces h).rootPhys i) = false

namespace Sound

variable {s : System} (hs : Sound s)

include hs

/-- A page that is free or held stands in no space. -/
theorem frame_ne_of_spare {page : Nat} (hp : page ∈ s.free ∨ page ∈ s.held) {h : Nat}
    (hv : s.Live h) {q : List (Fin 512)} {a : Table} (ha : s.node h q = some a) :
    a.frame ≠ page * pageSize := by
  intro heq
  obtain ⟨other, hother, -, -, hfree, hheld⟩ := hs.placed h hv q a ha
  have hsame : other = page := Nat.eq_of_mul_eq_mul_right (by decide) (hother.symm.trans heq)
  rw [hsame] at hfree hheld
  rcases hp with hp | hp
  · exact hfree hp
  · exact hheld hp

/-- A page that is free or held exists. -/
theorem lt_of_spare {page : Nat} (hp : page ∈ s.free ∨ page ∈ s.held) :
    page < s.machine.pmm.totalPages := by
  rcases hp with hp | hp
  · exact (mem_freeSet.mp hp).1
  · exact (hs.held page hp).2.1

/-- Its address fits a word. -/
theorem address_lt {page : Nat} (hp : page ∈ s.free ∨ page ∈ s.held) : page * pageSize < 2 ^ 64 :=
  Nat.lt_of_lt_of_le (Nat.mul_lt_mul_of_pos_right (hs.lt_of_spare hp) (by decide)) hs.bounded

/-- Pages that are held stay so while no page becomes free. -/
theorem held_spare {free : Finset Nat} (hfree : free ⊆ s.free) :
    ∀ page ∈ s.held, page ≠ 0 ∧ page ∉ free ∧ (page ∈ s.free ∨ page ∈ s.held) := by
  intro page hp
  obtain ⟨hne, -, hnot⟩ := hs.held page hp
  exact ⟨hne, fun hmem => hnot (hfree hmem), .inr hp⟩

/-- A change that leaves live spaces with nothing new; pages that become free or held were so
before, or stand in no live space any more. -/
theorem shrink {s' : System} (hlive : ∀ k, s'.Live k → s.Live k)
    (hspaces : ∀ k, s'.Live k → s'.spaces k = s.spaces k)
    (hnode : ∀ k, s'.Live k → ∀ q a, s'.node k q = some a → s.node k q = some a)
    (htotal : s'.machine.pmm.totalPages = s.machine.pmm.totalPages)
    (hspare : ∀ page, page ∈ s'.free ∨ page ∈ s'.held → (page ∈ s.free ∨ page ∈ s.held) ∨
      ∀ k, s'.Live k → ∀ q a, s'.node k q = some a → a.frame ≠ page * pageSize)
    (hheld : ∀ page ∈ s'.held, page ≠ 0 ∧ page < s.machine.pmm.totalPages ∧ page ∉ s'.free)
    (hledger : ∀ k, s'.Live k → ∀ page, page ∈ s'.ledger k ↔
      ∃ q a, s'.node k q = some a ∧ a.frame = page * pageSize)
    (hhalf : ∀ k, s'.Live k → ∀ i : Fin 512, 256 ≤ i.val →
      user (s'.machine.mem (s.spaces k).rootPhys i) = false) : Sound s' := by
  constructor
  case bounded =>
    rw [htotal]
    exact hs.bounded
  case held =>
    rw [htotal]
    exact hheld
  case index =>
    intro k hk
    rw [hspaces k hk]
    exact hs.index k (hlive k hk)
  case placed =>
    intro k hk q a ha
    have hold := hnode k hk q a ha
    obtain ⟨page, heq, hne, hlt, hfree, hpheld⟩ := hs.placed k (hlive k hk) q a hold
    have hnot : ¬(page ∈ s'.free ∨ page ∈ s'.held) := by
      intro hp
      rcases hspare page hp with hp | hp
      · exact hp.elim hfree hpheld
      · exact hp k hk q a ha heq
    exact ⟨page, heq, hne, by rwa [htotal], fun hp => hnot (.inl hp), fun hp => hnot (.inr hp)⟩
  case apart =>
    intro k l hk hl q r a b ha hb heq
    exact hs.apart k l (hlive k hk) (hlive l hl) q r a b (hnode k hk q a ha) (hnode l hl r b hb) heq
  case ledger => exact hledger
  case kernelHalf =>
    intro k hk
    rw [hspaces k hk]
    exact hhalf k hk

/-- A change that keeps the trees, with free and held pages that were free or held before. -/
theorem same {m : Machine} {held : Finset Nat}
    (htree : ∀ k, s.Live k → ∀ a i, Reached (userChild s.machine (s.spaces k).pml4Index)
      (s.spaces k).root a → userChild m (s.spaces k).pml4Index a i =
        userChild s.machine (s.spaces k).pml4Index a i)
    (htotal : m.pmm.totalPages = s.machine.pmm.totalPages)
    (hfree : ∀ page ∈ freeSet m.pmm, page ∈ s.free ∨ page ∈ s.held)
    (hheld : ∀ page ∈ held, page ≠ 0 ∧ page ∉ freeSet m.pmm ∧ (page ∈ s.free ∨ page ∈ s.held))
    (hhalf : ∀ k, s.Live k → ∀ i : Fin 512, 256 ≤ i.val →
      user (m.mem (s.spaces k).rootPhys i) = false) : Sound ⟨m, s.spaces, held, s.ledger⟩ := by
  have hnode (k : Nat) (hk : s.Live k) (q : List (Fin 512)) :
      (s.spaces k).node m q = s.node k q := walk_eq_of_reached (htree k hk) q
  apply hs.shrink
  case hlive => exact fun k hk => hk
  case hspaces => exact fun k _ => rfl
  case hnode => exact fun k hk q a ha => (hnode k hk q).symm.trans ha
  case htotal => exact htotal
  case hspare =>
    rintro page (hp | hp)
    · exact .inl (hfree page hp)
    · exact .inl (hheld page hp).2.2
  case hheld =>
    intro page hp
    obtain ⟨hne, hnot, hspare⟩ := hheld page hp
    exact ⟨hne, hs.lt_of_spare hspare, hnot⟩
  case hledger =>
    intro k hk page
    rw [hs.ledger k hk page]
    apply exists_congr
    intro q
    apply exists_congr
    intro a
    exact and_congr_left' (by rw [← hnode k hk q]; rfl)
  case hhalf => exact hhalf

end Sound

/-- The words of all live spaces stay, but for one entry. -/
def System.KeepsBut (s : System) (m : Machine) (frame : Nat) (i : Fin 512) : Prop :=
  ∀ k, s.Live k → ∀ q a, s.node k q = some a → ∀ j, (a.frame ≠ frame ∨ j ≠ i) →
    m.mem a.frame j = s.machine.mem a.frame j

section Entry

variable {s : System} {m : Machine} {h : Nat} {p : List (Fin 512)} {n t : Table} {i : Fin 512}
  {page : Nat} (hs : Sound s) (hv : s.Live h) (hn : s.node h p = some n)
  (hkeeps : s.KeepsBut m n.frame i)

include hs hv hn hkeeps

namespace Sound

/-- The trees of other spaces stay. -/
theorem userChild_other {k : Nat} (hk : s.Live k) (hkh : k ≠ h) (a : Table) (j : Fin 512)
    (ha : Reached (userChild s.machine (s.spaces k).pml4Index) (s.spaces k).root a) :
    userChild m (s.spaces k).pml4Index a j = userChild s.machine (s.spaces k).pml4Index a j := by
  obtain ⟨q, ha⟩ := ha
  apply userChild_congr
  apply hkeeps k hk q a ha
  left
  intro heq
  exact hkh (hs.apart k h hk hv q p a n ha hn heq).1

/-- The other edges of the space stay. -/
theorem userChild_same (a : Table) (j : Fin 512)
    (ha : Reached (userChild s.machine (s.spaces h).pml4Index) (s.spaces h).root a)
    (hne : a ≠ n ∨ j ≠ i) :
    userChild m (s.spaces h).pml4Index a j = userChild s.machine (s.spaces h).pml4Index a j := by
  obtain ⟨q, ha⟩ := ha
  apply userChild_congr
  apply hkeeps h hv q a ha
  rcases hne with hne | hne
  · refine .inl fun heq => hne ?_
    obtain ⟨-, rfl⟩ := hs.apart h h hv hv q p a n ha hn heq
    exact Option.some.inj (ha.symm.trans hn)
  · exact .inr hne

/-- The kernel half of every root stays. -/
theorem kernelHalf_same (hi : n.level = 0 → i = (s.spaces h).pml4Index) (k : Nat)
    (hk : s.Live k) (j : Fin 512) (hj : 256 ≤ j.val) :
    user (m.mem (s.spaces k).rootPhys j) = false := by
  rw [← hs.kernelHalf k hk j hj]
  apply congrArg user (hkeeps k hk [] (s.spaces k).root rfl j ?_)
  by_cases heq : (s.spaces k).root.frame = n.frame
  · right
    obtain ⟨rfl, rfl⟩ := hs.apart k h hk hv [] p _ n rfl hn heq
    have hlevel : n.level = 0 := UserAddressSpace.level_of_node hn
    have hindex := hs.index k hk
    rintro rfl
    rw [← hi hlevel] at hindex
    omega
  · exact .inl heq

private theorem node_entry (hbare : ∀ t, userChild s.machine (s.spaces h).pml4Index n i = some t →
      ∀ j, userChild s.machine (s.spaces h).pml4Index t j = none)
    (hbare' : ∀ t, userChild m (s.spaces h).pml4Index n i = some t →
      ∀ j, userChild m (s.spaces h).pml4Index t j = none)
    {k : Nat} (hk : s.Live k) (q : List (Fin 512)) : (s.spaces k).node m q =
      if k = h ∧ q = p ++ [i] then userChild m (s.spaces h).pml4Index n i else s.node k q := by
  by_cases hkh : k = h
  · subst hkh
    simp only [true_and]
    exact walk_edge hn (fun r hr => (hs.apart k k hv hv r p n n hr hn rfl).2) hbare hbare'
      (hs.userChild_same hv hn hkeeps) q
  · rw [if_neg fun h => hkh h.1]
    exact walk_eq_of_reached (hs.userChild_other hv hn hkeeps hk hkh) q

/-- A page that was free or held is put below an absent entry. -/
theorem graft_entry (hi : n.level = 0 → i = (s.spaces h).pml4Index)
    (habsent : present (s.machine.mem n.frame i) = false) {held : Finset Nat}
    (hedge : userChild m (s.spaces h).pml4Index n i = some t)
    (hbare : ∀ j, userChild m (s.spaces h).pml4Index t j = none)
    (hframe : t.frame = page * pageSize) (hne : page ≠ 0) (hspare : page ∈ s.free ∨ page ∈ s.held)
    (htotal : m.pmm.totalPages = s.machine.pmm.totalPages)
    (hfree : freeSet m.pmm ⊆ s.free.erase page) (hheld : held ⊆ s.held.erase page) :
    Sound ⟨m, s.spaces, held, update s.ledger h (insert page (s.ledger h))⟩ ∧
      (s.spaces h).node m (p ++ [i]) = some t ∧
      ∀ q a, s.node h q = some a → (s.spaces h).node m q = some a := by
  have hempty := userChild_absent habsent (s.spaces h).pml4Index
  have hnone : s.node h (p ++ [i]) = none := (walk_snoc hn i).trans hempty
  -- Every table or page is an old one or the new one.
  have hiff (k : Nat) (hk : s.Live k) (q : List (Fin 512)) (a : Table) :
      (s.spaces k).node m q = some a ↔ s.node k q = some a ∨ k = h ∧ q = p ++ [i] ∧ a = t := by
    rw [hs.node_entry hv hn hkeeps (by simp [hempty]) ?_ hk q, hedge]
    · split
      · next hq =>
        obtain ⟨rfl, rfl⟩ := hq
        simp [hnone, eq_comm]
      · next hq => simp [← and_assoc, hq]
    · rw [hedge]
      rintro _ ⟨⟩
      exact hbare
  have hlt := hs.lt_of_spare hspare
  refine ⟨?_, (hiff h hv _ t).mpr (.inr ⟨rfl, rfl, rfl⟩), fun q a ha => (hiff h hv q a).mpr (.inl ha)⟩
  constructor
  case bounded =>
    rw [htotal]
    exact hs.bounded
  case held =>
    intro other hp
    obtain ⟨-, hp⟩ := mem_erase.mp (hheld hp)
    obtain ⟨hzero, hotherlt, hnot⟩ := hs.held other hp
    refine ⟨hzero, by dsimp only; rwa [htotal], ?_⟩
    intro hmem
    exact hnot (mem_of_mem_erase (hfree hmem))
  case index => exact hs.index
  case placed =>
    intro k hk q a ha
    rcases (hiff k hk q a).mp ha with ha | ⟨-, -, rfl⟩
    · obtain ⟨other, heq, hzero, hotherlt, hotherfree, hotherheld⟩ := hs.placed k hk q a ha
      refine ⟨other, heq, hzero, by dsimp only; rwa [htotal], ?_, ?_⟩
      · intro hmem
        exact hotherfree (mem_of_mem_erase (hfree hmem))
      · intro hmem
        exact hotherheld (mem_of_mem_erase (hheld hmem))
    · refine ⟨page, hframe, hne, by dsimp only; rwa [htotal], ?_, ?_⟩
      · intro hmem
        exact notMem_erase _ _ (hfree hmem)
      · intro hmem
        exact notMem_erase _ _ (hheld hmem)
  case apart =>
    intro k l hk hl q r a b ha hb heq
    rcases (hiff k hk q a).mp ha with hold | ⟨hkh, hq, hat⟩
    · rcases (hiff l hl r b).mp hb with hold' | ⟨-, -, hbt⟩
      · exact hs.apart k l hk hl q r a b hold hold' heq
      · rw [hbt, hframe] at heq
        exact absurd heq (hs.frame_ne_of_spare hspare hk hold)
    · rcases (hiff l hl r b).mp hb with hold | ⟨hlh, hr, -⟩
      · rw [hat, hframe] at heq
        exact absurd heq.symm (hs.frame_ne_of_spare hspare hl hold)
      · exact ⟨hkh.trans hlh.symm, hq.trans hr.symm⟩
  case ledger =>
    intro k hk other
    have hpages : (∃ q a, (s.spaces k).node m q = some a ∧ a.frame = other * pageSize) ↔
        other ∈ s.ledger k ∨ k = h ∧ other = page := by
      simp only [hiff k hk, or_and_right, exists_or, ← hs.ledger k hk other]
      refine or_congr_right ⟨?_, ?_⟩
      · rintro ⟨q, a, ⟨hkh, -, rfl⟩, heq⟩
        exact ⟨hkh, Nat.eq_of_mul_eq_mul_right (by decide) (heq.symm.trans hframe)⟩
      · rintro ⟨hkh, rfl⟩
        exact ⟨_, t, ⟨hkh, rfl, rfl⟩, hframe⟩
    refine Iff.trans ?_ hpages.symm
    dsimp only
    rw [update_apply]
    split
    · next hkh => simp [hkh, or_comm]
    · next hkh => simp [hkh]
  case kernelHalf => exact hs.kernelHalf_same hv hn hkeeps hi

/-- The page below an entry is taken out and becomes free. -/
theorem prune (hi : n.level = 0 → i = (s.spaces h).pml4Index)
    (habsent : present (m.mem n.frame i) = false)
    (hedge : userChild s.machine (s.spaces h).pml4Index n i = some t)
    (hbare : ∀ j, userChild s.machine (s.spaces h).pml4Index t j = none)
    (hframe : t.frame = page * pageSize) (hpage : page ∉ s.held)
    (htotal : m.pmm.totalPages = s.machine.pmm.totalPages)
    (hfree : freeSet m.pmm = insert page s.free) :
    Sound ⟨m, s.spaces, s.held, update s.ledger h ((s.ledger h).erase page)⟩ := by
  have hnode : s.node h (p ++ [i]) = some t := (walk_snoc hn i).trans hedge
  -- The tables and pages are the old ones without the page.
  have hwalk (k : Nat) (hk : s.Live k) (q : List (Fin 512)) :
      (s.spaces k).node m q = if k = h ∧ q = p ++ [i] then none else s.node k q := by
    have hnone := userChild_absent habsent (s.spaces h).pml4Index
    rw [hs.node_entry hv hn hkeeps ?_ (by simp [hnone]) hk q, hnone]
    rw [hedge]
    rintro _ ⟨⟩
    exact hbare
  have hiff (k : Nat) (hk : s.Live k) (q : List (Fin 512)) (a : Table) :
      (s.spaces k).node m q = some a ↔ s.node k q = some a ∧ a.frame ≠ page * pageSize := by
    rw [hwalk k hk]
    split
    · next hq =>
      obtain ⟨rfl, rfl⟩ := hq
      rw [hnode]
      simp only [reduceCtorEq, Option.some.injEq, false_iff, not_and, not_not]
      rintro rfl
      exact hframe
    · next hq =>
      refine (and_iff_left_of_imp fun ha heq => hq ?_).symm
      exact hs.apart k h hk hv q _ a t ha hnode (heq.trans hframe.symm)
  apply hs.shrink
  case hlive => exact fun k hk => hk
  case hspaces => exact fun k _ => rfl
  case hnode => exact fun k hk q a ha => ((hiff k hk q a).mp ha).1
  case htotal => exact htotal
  case hspare =>
    rintro other (hp | hp)
    · rw [System.free, hfree, mem_insert] at hp
      rcases hp with rfl | hp
      · exact .inr fun k hk q a ha => ((hiff k hk q a).mp ha).2
      · exact .inl (.inl hp)
    · exact .inl (.inr hp)
  case hheld =>
    intro other hp
    obtain ⟨hne, hlt, hnot⟩ := hs.held other hp
    refine ⟨hne, hlt, ?_⟩
    rw [System.free, hfree, mem_insert]
    rintro (rfl | hmem)
    · exact hpage hp
    · exact hnot hmem
  case hledger =>
    intro k hk other
    have hpages : (∃ q a, (s.spaces k).node m q = some a ∧ a.frame = other * pageSize) ↔
        other ∈ s.ledger k ∧ other ≠ page := by
      simp only [hiff k hk, hs.ledger k hk other]
      constructor
      · rintro ⟨q, a, ⟨ha, hne⟩, heq⟩
        exact ⟨⟨q, a, ha, heq⟩, fun h => hne (h ▸ heq)⟩
      · rintro ⟨⟨q, a, ha, heq⟩, hne⟩
        exact ⟨q, a, ⟨ha, fun h => hne (Nat.eq_of_mul_eq_mul_right (by decide)
          (heq.symm.trans h))⟩, heq⟩
    refine Iff.trans ?_ hpages.symm
    dsimp only
    rw [update_apply]
    split
    · next hkh => rw [mem_erase, hkh, and_comm]
    · next hkh =>
      refine (and_iff_left_of_imp ?_).symm
      rintro hmem rfl
      obtain ⟨q, a, ha, heq⟩ := (hs.ledger k hk other).mp hmem
      exact hkh (hs.apart k h hk hv q _ a t ha hnode (heq.trans hframe.symm)).1
  case hhalf => exact hs.kernelHalf_same hv hn hkeeps hi

end Sound

end Entry

end NasuaOS.Memory
