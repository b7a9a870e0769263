import NasuaOS.Base.Forest
import NasuaOS.Memory.Vmm

/-!
# Kernel page tables

The tables below `pml4` form a tree: no frame holds two of them, and none is free. `map_page` adds
empty tables, which no translation sees, and then one entry in a last table.
-/

namespace NasuaOS.Memory

open Base Finset

variable {m m' : Machine}

/-- A table: its level, 0 for `pml4` and 3 for a last table, and its frame. -/
structure Table where
  level : Nat
  frame : Nat
deriving DecidableEq

/-- The table below an entry. Entries of a last table, absent ones and those for large pages have
none. -/
def child (m : Machine) (n : Table) (i : Fin 512) : Option Table :=
  if n.level < 3 ∧ present (m.mem n.frame i) = true ∧
      (n.level = 0 ∨ large (m.mem n.frame i) = false) then
    some ⟨n.level + 1, tableFromEntry (m.mem n.frame i)⟩
  else none

/-- The kernel's `pml4` as a table. -/
def Machine.root (m : Machine) : Table := ⟨0, m.pml4⟩

variable {a n : Table} {p : List (Fin 512)} {virt : Nat} {i : Fin 512}

private theorem level_of_walk (h : walk (child m) a p = some n) : n.level = a.level + p.length := by
  induction p generalizing a with
  | nil =>
    cases h
    rfl
  | cons i p ih =>
    simp only [walk, Option.bind_eq_some_iff] at h
    obtain ⟨c, hc, hn⟩ := h
    rw [child, Option.ite_none_right_eq_some] at hc
    obtain ⟨-, hc⟩ := hc
    cases hc
    rw [ih hn, List.length_cons]
    dsimp only
    omega

/-- Where the walk for an address ends. -/
inductive Resolved where
  | absent
  | large (level entry : Nat)
  | page (entry : Nat)

/-- The end of a descent: an entry of a last table, or one without a table below. -/
def resolveEnd (m : Machine) (virt : Nat) : Table × List (Fin 512) → Resolved
  | (n, []) =>
    if present (m.mem n.frame (tableIndex virt 12)) = true then
      .page (m.mem n.frame (tableIndex virt 12))
    else .absent
  | (n, i :: _) =>
    if present (m.mem n.frame i) = true then .large n.level (m.mem n.frame i) else .absent

/-- The walk of the tables for an address. -/
def resolve (virt : Nat) (m : Machine) : Resolved :=
  resolveEnd m virt (descend (child m) m.root (tableIndices virt))

/-- The address that a walk gives. -/
def Resolved.address (virt : Nat) : Resolved → Nat
  | absent => 0
  | large level entry => if level = 1 then translate1G entry virt else translate2M entry virt
  | page entry => frameOf entry

/-- `translate` walks the tree. -/
theorem translate_eq (virt : Nat) (m : Machine) :
    translate virt m = (resolve virt m).address virt := by
  unfold translate resolve tableIndices Machine.root
  dsimp only
  generalize hpml4 : m.mem m.pml4 (tableIndex virt 39) = pml4Entry
  cases h0 : present pml4Entry with
  | false => simp [descend, child, resolveEnd, Resolved.address, hpml4, h0]
  | true =>
    generalize hpdpt : m.mem (tableFromEntry pml4Entry) (tableIndex virt 30) = pdptEntry
    cases h1 : present pdptEntry with
    | false => simp [descend, child, resolveEnd, Resolved.address, hpml4, h0, hpdpt, h1]
    | true =>
      cases hl1 : large pdptEntry with
      | true => simp [descend, child, resolveEnd, Resolved.address, hpml4, h0, hpdpt, h1, hl1]
      | false =>
        generalize hpd : m.mem (tableFromEntry pdptEntry) (tableIndex virt 21) = pdEntry
        have hdesc : descend (child m) ⟨0, m.pml4⟩
            [tableIndex virt 39, tableIndex virt 30, tableIndex virt 21] =
            descend (child m) ⟨2, tableFromEntry pdptEntry⟩ [tableIndex virt 21] := by
          simp [descend, child, hpml4, h0, hpdpt, h1, hl1]
        rw [hdesc]
        cases h2 : present pdEntry with
        | false => simp [descend, child, resolveEnd, Resolved.address, hpd, h2]
        | true =>
          cases hl2 : large pdEntry with
          | true => simp [descend, child, resolveEnd, Resolved.address, hpd, h2, hl2]
          | false =>
            cases h3 : present (m.mem (tableFromEntry pdEntry) (tableIndex virt 12)) with
            | false | true => simp [descend, child, resolveEnd, Resolved.address, hpd, h2, hl2, h3]

/-- No entry for a large page is on the walk for an address. -/
def LargeFree (virt : Nat) (m : Machine) : Prop := ∀ level entry, resolve virt m ≠ .large level entry

private theorem LargeFree.absent (h : LargeFree virt m) {rest : List (Fin 512)}
    (hd : descend (child m) m.root (tableIndices virt) = (n, i :: rest)) :
    present (m.mem n.frame i) = false := by
  by_contra hp
  rw [Bool.not_eq_false] at hp
  apply h n.level (m.mem n.frame i)
  rw [resolve, hd, resolveEnd, if_pos hp]

private theorem findTable_eq {labels : List (Fin 512)} (hlevel : a.level + labels.length ≤ 3)
    (habsent : ∀ n i rest, descend (child m) a labels = (n, i :: rest) →
      present (m.mem n.frame i) = false) :
    findTable m a.frame labels = (walk (child m) a labels).map Table.frame := by
  induction labels generalizing a with
  | nil => rfl
  | cons i labels ih =>
    rw [List.length_cons] at hlevel
    rw [findTable, walk]
    cases hc : child m a i with
    | none =>
      rw [if_pos (habsent a i labels (by rw [descend, hc]))]
      rfl
    | some c =>
      rw [child, Option.ite_none_right_eq_some] at hc
      obtain ⟨⟨-, hp, hl⟩, hc⟩ := hc
      cases hc
      rw [if_neg (by rw [hp]; decide), Option.bind_some]
      apply ih (a := ⟨a.level + 1, tableFromEntry (m.mem a.frame i)⟩) (by dsimp only; omega)
      intro n j rest hd
      apply habsent n j rest
      rw [descend, child, if_pos ⟨by omega, hp, hl⟩]
      exact hd

/-! ### What is mapped -/

/-- The frame that a walk gives, if it ends in a last table. -/
def Resolved.frame : Resolved → Option Nat
  | page entry => some (frameOf entry)
  | _ => none

/-- The frame that the page of an address is mapped to. -/
def mapped (virt : Nat) (m : Machine) : Option Nat := (resolve virt m).frame

/-- Without large pages, `translate` returns the frame that is mapped, or 0. -/
theorem LargeFree.translate_eq (h : LargeFree virt m) :
    translate virt m = (mapped virt m).getD 0 := by
  rw [Memory.translate_eq, mapped]
  cases hr : resolve virt m with
  | absent | page entry => rfl
  | large level entry => exact absurd hr (h level entry)

/-- Without large pages, `unmap_page` fails and changes nothing, or removes the entry of a last
table. -/
theorem LargeFree.unmapPage_cases (h : LargeFree virt m) :
    mapped virt m = none ∧ unmapPage virt m = (false, m) ∨
    ∃ n frame, walk (child m) m.root (tableIndices virt) = some n ∧ mapped virt m = some frame ∧
      unmapPage virt m = (true, m.write n.frame (tableIndex virt 12) 0) := by
  have hfind : findTable m m.pml4 (tableIndices virt) =
      (walk (child m) m.root (tableIndices virt)).map Table.frame :=
    findTable_eq le_rfl fun _ _ _ hd => h.absent hd
  rw [unmapPage, hfind, mapped, resolve]
  rcases hd : descend (child m) m.root (tableIndices virt) with ⟨n, rest⟩
  cases rest with
  | nil =>
    rw [descend_eq_nil_iff.mp hd, resolveEnd]
    cases hp : present (m.mem n.frame (tableIndex virt 12)) with
    | false | true => simp [hp, Resolved.frame]
  | cons i rest =>
    have hnone : walk (child m) m.root (tableIndices virt) = none := by
      cases hw : walk (child m) m.root (tableIndices virt) with
      | none => rfl
      | some c =>
        rw [descend_eq_nil_iff.mpr hw] at hd
        cases hd
    rw [hnone, resolveEnd, h.absent hd]
    simp [Resolved.frame]

/-! ### Tables apart from each other and from free pages -/

/-- No frame holds two tables of the kernel. -/
def TablesApart (m : Machine) : Prop :=
  ∀ p q a b, walk (child m) m.root p = some a → walk (child m) m.root q = some b →
    a.frame = b.frame → p = q

/-- Tables are apart, no table is a free page, and the pages are addressed with 64 bits. -/
structure TablesOwned (m : Machine) : Prop where
  apart : TablesApart m
  used : ∀ a, Reached (child m) m.root a → a.frame / pageSize ∉ freeSet m.pmm
  bounded : m.pmm.totalPages * pageSize ≤ 2 ^ 64

private theorem TablesOwned.eq (h : TablesOwned m) {b : Table} (ha : Reached (child m) m.root a)
    (hb : Reached (child m) m.root b) (heq : a.frame = b.frame) : a = b := by
  obtain ⟨p, hp⟩ := ha
  obtain ⟨q, hq⟩ := hb
  obtain rfl := h.apart p q a b hp hq heq
  rw [hp] at hq
  exact Option.some.inj hq

/-- More empty tables, in pages that were free, and nothing else. -/
structure Grown (m m' : Machine) : Prop where
  owned : TablesOwned m'
  pml4 : m'.pml4 = m.pml4
  walks : ∀ p a, walk (child m) m.root p = some a → walk (child m') m'.root p = some a
  resolves : ∀ virt, resolve virt m' = resolve virt m
  free : freeSet m'.pmm ⊆ freeSet m.pmm
  total : m'.pmm.totalPages = m.pmm.totalPages
  fresh : ∀ a, Reached (child m') m'.root a →
    Reached (child m) m.root a ∨ a.frame / pageSize ∈ freeSet m.pmm
  kept : ∀ f, f / pageSize ∉ freeSet m.pmm → (∀ a, Reached (child m) m.root a → a.frame ≠ f) →
    m'.mem f = m.mem f

private theorem Grown.refl (h : TablesOwned m) : Grown m m where
  owned := h
  pml4 := rfl
  walks _ _ hw := hw
  resolves _ := rfl
  free := Subset.refl _
  total := rfl
  fresh _ ha := .inl ha
  kept _ _ _ := rfl

/-- Added one after another. -/
theorem Grown.trans {m'' : Machine} (h : Grown m m') (h' : Grown m' m'') : Grown m m'' where
  owned := h'.owned
  pml4 := h'.pml4.trans h.pml4
  walks p a hw := h'.walks p a (h.walks p a hw)
  resolves virt := (h'.resolves virt).trans (h.resolves virt)
  free := h'.free.trans h.free
  total := h'.total.trans h.total
  fresh a ha := by
    rcases h'.fresh a ha with ha | ha
    · exact h.fresh a ha
    · exact .inr (h.free ha)
  kept f hfree htable := by
    rw [h'.kept f (fun hmem => hfree (h.free hmem)), h.kept f hfree htable]
    intro a ha heq
    rcases h.fresh a ha with ha | ha
    · exact htable a ha heq
    · exact hfree (heq ▸ ha)

/-! ### Creating tables -/

/-- What `alloc_page` does to the machine: nothing is free and nothing changes, or one page is no
longer free. -/
theorem takePage_cases (m : Machine) : (freeSet m.pmm = ∅ ∧ takePage m = (0, m)) ∨
    ∃ page pmm, page ∈ freeSet m.pmm ∧ freeSet pmm = (freeSet m.pmm).erase page ∧
      pmm.totalPages = m.pmm.totalPages ∧ takePage m = (page * pageSize, { m with pmm := pmm }) := by
  rcases allocPage_cases m.pmm with ⟨hempty, heq⟩ | ⟨page, hp, heq⟩
  · left
    rw [takePage, heq]
    exact ⟨hempty, rfl⟩
  · right
    refine ⟨page, (allocPage m.pmm).2, hp, ?_, ?_, ?_⟩
    · rw [heq]
      exact freeSet_set _ _ _ _
    · rw [heq]
    · rw [takePage, heq]

/-- What `create_table` does: it fails and at most takes page 0 off the free ones, or it clears a
page that was free. -/
theorem createTable_cases (m : Machine) :
    (∃ pmm, freeSet pmm ⊆ freeSet m.pmm ∧ (freeSet m.pmm).erase 0 ⊆ freeSet pmm ∧
      pmm.totalPages = m.pmm.totalPages ∧ createTable m = (none, { m with pmm := pmm })) ∨
    ∃ page pmm, page ∈ freeSet m.pmm ∧ freeSet pmm = (freeSet m.pmm).erase page ∧
      pmm.totalPages = m.pmm.totalPages ∧ page * pageSize ≠ 0 ∧ createTable m =
        (some (page * pageSize), Machine.fill { m with pmm := pmm }
          (page * pageSize) fun _ => 0) := by
  rcases takePage_cases m with ⟨-, heq⟩ | ⟨page, pmm, hp, hfree, htotal, heq⟩
  · left
    refine ⟨m.pmm, Subset.refl _, erase_subset _ _, rfl, ?_⟩
    rw [createTable, heq]
    exact if_pos rfl
  · by_cases hzero : page * pageSize = 0
    · left
      have hpage : page = 0 := (Nat.mul_eq_zero.mp hzero).resolve_right (by decide)
      refine ⟨pmm, hfree ▸ erase_subset _ _, by rw [hfree, hpage], htotal, ?_⟩
      rw [createTable, heq]
      exact if_pos hzero
    · right
      refine ⟨page, pmm, hp, hfree, htotal, hzero, ?_⟩
      rw [createTable, heq]
      exact if_neg hzero

/-- Taking pages off the free ones changes no table. -/
theorem TablesOwned.grown_pmm (h : TablesOwned m) {pmm : Pmm} (hfree : freeSet pmm ⊆ freeSet m.pmm)
    (htotal : pmm.totalPages = m.pmm.totalPages) : Grown m { m with pmm := pmm } where
  owned :=
    { apart := h.apart
      used := fun a ha hmem => h.used a ha (hfree hmem)
      bounded := by
        rw [htotal]
        exact h.bounded }
  pml4 := rfl
  walks _ _ hw := hw
  resolves _ := rfl
  free := hfree
  total := htotal
  fresh _ ha := .inl ha
  kept _ _ _ := rfl

/-- A new table in a free page, below an absent entry. -/
def linkTable (m : Machine) (pmm : Pmm) (n : Table) (i : Fin 512) (t : Nat) : Machine :=
  (Machine.fill { m with pmm := pmm } t fun _ => 0).write n.frame i (t ||| pagePresent ||| pageWrite)

section Link

variable {pmm : Pmm} {n : Table} {i : Fin 512} {page : Nat} {p : List (Fin 512)}

variable (h : TablesOwned m) (hp : page ∈ freeSet m.pmm)

include h hp

private theorem TablesOwned.frame_ne {a : Table} (ha : Reached (child m) m.root a) : a.frame ≠ page * pageSize := by
  intro heq
  apply h.used a ha
  rw [heq, Nat.mul_div_cancel _ (by decide)]
  exact hp

private theorem TablesOwned.linkTable_mem (hn : Reached (child m) m.root n) {a : Table}
    (ha : Reached (child m) m.root a) {j : Fin 512} (hne : a ≠ n ∨ j ≠ i) :
    (linkTable m pmm n i (page * pageSize)).mem a.frame j = m.mem a.frame j := by
  have hentry : ¬(a.frame = n.frame ∧ j = i) := by
    rintro ⟨hframe, hj⟩
    rcases hne with hne | hne
    · exact hne (h.eq ha hn hframe)
    · exact hne hj
  rw [linkTable, Machine.write, Machine.fill]
  dsimp only
  rw [if_neg hentry, if_neg (h.frame_ne hp ha)]

private theorem TablesOwned.linkTable_zero (hn : Reached (child m) m.root n) (j : Fin 512) :
    (linkTable m pmm n i (page * pageSize)).mem (page * pageSize) j = 0 := by
  rw [linkTable, Machine.write, Machine.fill]
  dsimp only
  rw [if_neg (fun hboth => h.frame_ne hp hn hboth.1.symm), if_pos rfl]

variable (hn : walk (child m) m.root p = some n) (hlevel : n.level < 3)
  (habsent : present (m.mem n.frame i) = false)

include hn hlevel habsent

private theorem TablesOwned.grafted (pmm : Pmm) :
    Grafted (child m) (child (linkTable m pmm n i (page * pageSize))) m.root p i n
      ⟨n.level + 1, page * pageSize⟩ := by
  have hreach : Reached (child m) m.root n := ⟨p, hn⟩
  have hentry : (linkTable m pmm n i (page * pageSize)).mem n.frame i =
      page * pageSize ||| (pagePresent ||| pageWrite) := by
    rw [linkTable, Machine.write]
    dsimp only
    rw [if_pos ⟨rfl, rfl⟩, Nat.or_assoc]
  have hlt : page * pageSize < 2 ^ 64 :=
    Nat.lt_of_lt_of_le (Nat.mul_lt_mul_of_pos_right (mem_freeSet.mp hp).1 (by decide)) h.bounded
  have hdvd : pageSize ∣ page * pageSize := Nat.dvd_mul_left _ _
  constructor
  case parent => exact hn
  case single =>
    intro q hq
    exact h.apart q p n n hq hn rfl
  case absent => rw [child, if_neg (by simp [habsent])]
  case edge =>
    have hpresent : present (page * pageSize ||| (pagePresent ||| pageWrite)) = true := by
      rw [present_eq, Nat.testBit_or]
      simp [pagePresent, pageWrite]
    have hlarge : large (page * pageSize ||| (pagePresent ||| pageWrite)) = false := by
      rw [large_eq, Nat.testBit_or]
      cases hbit : (page * pageSize).testBit 7 with
      | false => rfl
      | true =>
        have hrange := testBit_of_aligned (show 2 ^ 12 ∣ page * pageSize from hdvd) hlt hbit
        omega
    rw [child, hentry, if_pos ⟨hlevel, hpresent, .inr hlarge⟩,
      tableFromEntry_or hdvd hlt (by decide)]
  case bare =>
    intro j
    rw [child, h.linkTable_zero hp hreach, if_neg (by simp)]
  case same =>
    intro b j hb hne
    rw [child, h.linkTable_mem hp hreach hb hne, child]

private theorem TablesOwned.resolve_linkTable (virt : Nat) :
    resolve virt (linkTable m pmm n i (page * pageSize)) = resolve virt m := by
  have hreach : Reached (child m) m.root n := ⟨p, hn⟩
  have hgraft := h.grafted hp hn hlevel habsent pmm
  rw [resolve, resolve]
  change resolveEnd _ virt (descend _ m.root _) = _
  rcases hd : descend (child m) m.root (tableIndices virt) with ⟨b, rest⟩
  obtain ⟨q, hq, hb, -⟩ := descend_eq hd
  cases rest with
  | nil =>
    -- The walk ends in a last table, which is not the one that changed.
    have hlast : b.level = 3 := by
      rw [level_of_walk hb, ← List.append_nil q, ← hq]
      rfl
    have hne : b ≠ n := by
      rintro rfl
      omega
    rw [hgraft.descend_other hd (by simp), resolveEnd, resolveEnd,
      h.linkTable_mem hp hreach ⟨q, hb⟩ (.inl hne)]
  | cons j rest =>
    by_cases hsame : b = n ∧ j = i
    · -- The walk ended at the entry; it now ends in the new table, which is empty.
      obtain ⟨rfl, rfl⟩ := hsame
      rw [hgraft.descend_edge hd, resolveEnd, habsent]
      cases rest with
      | nil | cons k rest => simp [resolveEnd, h.linkTable_zero hp hreach]
    · rw [hgraft.descend_other hd, resolveEnd, resolveEnd,
        h.linkTable_mem hp hreach ⟨q, hb⟩ (not_and_or.mp hsame)]
      rintro r heq
      cases heq
      exact hsame ⟨rfl, rfl⟩

private theorem TablesOwned.grown_linkTable (hfree : freeSet pmm = (freeSet m.pmm).erase page)
    (htotal : pmm.totalPages = m.pmm.totalPages) :
    Grown m (linkTable m pmm n i (page * pageSize)) := by
  have hreach : Reached (child m) m.root n := ⟨p, hn⟩
  have hgraft := h.grafted hp hn hlevel habsent pmm
  have hroot : (linkTable m pmm n i (page * pageSize)).root = m.root := rfl
  have hpmm : (linkTable m pmm n i (page * pageSize)).pmm = pmm := rfl
  have hdiv : page * pageSize / pageSize = page := Nat.mul_div_cancel _ (by decide)
  constructor
  case owned =>
    constructor
    case apart =>
      intro q r a b ha hb heq
      rw [hroot, hgraft.walk_eq] at ha hb
      split at ha
      · next hq =>
        split at hb
        · next hr => rw [hq, hr]
        · cases ha
          exact absurd heq.symm (h.frame_ne hp ⟨r, hb⟩)
      · split at hb
        · cases hb
          exact absurd heq (h.frame_ne hp ⟨q, ha⟩)
        · exact h.apart q r a b ha hb heq
    case used =>
      rintro a ⟨q, ha⟩ hmem
      rw [hpmm, hfree, mem_erase] at hmem
      rw [hroot, hgraft.walk_eq] at ha
      split at ha
      · cases ha
        exact hmem.1 hdiv
      · exact h.used a ⟨q, ha⟩ hmem.2
    case bounded =>
      rw [hpmm, htotal]
      exact h.bounded
  case pml4 => rfl
  case walks => exact fun q a ha => hgraft.walk_mono ha
  case resolves => exact h.resolve_linkTable hp hn hlevel habsent
  case free =>
    rw [hpmm, hfree]
    exact erase_subset _ _
  case total => exact htotal
  case fresh =>
    rintro a ⟨q, ha⟩
    rw [hroot, hgraft.walk_eq] at ha
    split at ha
    · cases ha
      right
      rw [hdiv]
      exact hp
    · exact .inl ⟨q, ha⟩
  case kept =>
    intro f hf htable
    ext j
    rw [linkTable, Machine.write, Machine.fill]
    dsimp only
    rw [if_neg (fun hboth => htable n hreach hboth.1.symm), if_neg]
    rintro rfl
    exact hf (hdiv.symm ▸ hp)

end Link

private theorem TablesOwned.ensureTable_spec (h : TablesOwned m) (hn : walk (child m) m.root p = some n)
    (hlevel : n.level < 3)
    (hsmall : present (m.mem n.frame i) = true → n.level = 0 ∨ large (m.mem n.frame i) = false)
    {r : Option Nat} (hcall : ensureTable n.frame i m = (r, m')) :
    Grown m m' ∧ ∀ t, r = some t → walk (child m') m.root (p ++ [i]) = some ⟨n.level + 1, t⟩ := by
  unfold ensureTable at hcall
  split at hcall
  · next hp =>
    cases hcall
    refine ⟨.refl h, ?_⟩
    rintro _ ⟨⟩
    rw [walk_snoc hn, child, if_pos ⟨hlevel, hp, hsmall hp⟩]
  · next hp =>
    rw [Bool.not_eq_true] at hp
    rcases createTable_cases m with
      ⟨pmm, hfree, -, htotal, heq⟩ | ⟨page, pmm, hpage, hfree, htotal, -, heq⟩
    · rw [heq] at hcall
      cases hcall
      exact ⟨h.grown_pmm hfree htotal, nofun⟩
    · rw [heq] at hcall
      cases hcall
      refine ⟨h.grown_linkTable hpage hn hlevel hp hfree htotal, ?_⟩
      rintro _ ⟨⟩
      exact ((h.grafted hpage hn hlevel hp pmm).walk_eq _).trans (if_pos rfl)

private theorem LargeFree.small (h : LargeFree virt m) {rest : List (Fin 512)}
    (hp : walk (child m) m.root p = some n) (hlabels : tableIndices virt = p ++ i :: rest)
    (hpresent : present (m.mem n.frame i) = true) :
    n.level = 0 ∨ large (m.mem n.frame i) = false := by
  by_contra hlarge
  have hd : descend (child m) m.root (tableIndices virt) = (n, i :: rest) := by
    rw [hlabels, descend_append hp, descend, child, if_neg (fun hall => hlarge hall.2.2)]
  rw [h.absent hd] at hpresent
  cases hpresent

private theorem ensureTables_spec {labels : List (Fin 512)} (h : TablesOwned m) (hl : LargeFree virt m)
    (hn : walk (child m) m.root p = some n) (hlabels : tableIndices virt = p ++ labels)
    {r : Option Nat} (hcall : ensureTables n.frame labels m = (r, m')) : Grown m m' ∧
      ∀ t, r = some t → walk (child m') m.root (tableIndices virt) = some ⟨3, t⟩ := by
  -- Along the labels; each level starts in the machine that the one before left.
  induction labels generalizing m n p with
  | nil =>
    have hlevel : n.level = 3 := by
      rw [level_of_walk hn, ← List.append_nil p, ← hlabels]
      rfl
    cases hcall
    refine ⟨.refl h, ?_⟩
    rintro _ ⟨⟩
    rw [hlabels, List.append_nil, ← hlevel]
    exact hn
  | cons i labels ih =>
    have hlevel : n.level < 3 := by
      have hlen : (tableIndices virt).length = 3 := rfl
      rw [hlabels, List.length_append, List.length_cons] at hlen
      have hlevel := level_of_walk hn
      have hroot : m.root.level = 0 := rfl
      omega
    rw [ensureTables] at hcall
    split at hcall
    · next m₁ heq =>
      cases hcall
      exact ⟨(h.ensureTable_spec hn hlevel (hl.small hn hlabels) heq).1, nofun⟩
    · next t m₁ heq =>
      obtain ⟨hgrown, hwalk⟩ := h.ensureTable_spec hn hlevel (hl.small hn hlabels) heq
      have hroot : m₁.root = m.root := by rw [Machine.root, hgrown.pml4, Machine.root]
      have hl' : LargeFree virt m₁ := by
        intro level entry
        rw [hgrown.resolves]
        exact hl level entry
      have hstep := ih hgrown.owned hl' (by rw [hroot]; exact hwalk t rfl)
        (by rw [hlabels, List.append_assoc]; rfl) hcall
      rw [hroot] at hstep
      exact ⟨hgrown.trans hstep.1, hstep.2⟩

/-! ### Entries of last tables -/

/-- The page of an address: bits 12 to 47, the ones that the walk looks at. -/
def pageOf (virt : Nat) : Nat := virt / pageSize % 2 ^ 36

/-- Addresses of one page have the same entries. -/
theorem pageOf_eq_iff (v w : Nat) :
    pageOf v = pageOf w ↔ tableIndices v = tableIndices w ∧ tableIndex v 12 = tableIndex w 12 := by
  unfold pageOf tableIndices tableIndex pageSize
  simp only [List.cons.injEq, and_true, Fin.ext_iff, Fin.val_ofNat, Nat.shiftRight_eq_div_pow]
  omega

/-- What an entry of a last table resolves to. -/
def Resolved.ofEntry (e : Nat) : Resolved := if present e = true then .page e else .absent

/-- The level of a last table. -/
theorem level_of_tableIndices (hn : walk (child m) m.root (tableIndices virt) = some n) :
    n.level = 3 :=
  level_of_walk hn

/-- Words of other tables stay when an entry is set. -/
theorem Machine.mem_write_of_ne (m : Machine) {f frame : Nat} (h : f ≠ frame) (i j : Fin 512)
    (e : Nat) : (m.write frame i e).mem f j = m.mem f j := by
  rw [write]
  dsimp only
  rw [if_neg (fun hboth => h hboth.1)]

section Leaf

variable {virt : Nat} {n : Table} (i : Fin 512) (e : Nat)

/-- Setting an entry of a last table changes no table. -/
theorem TablesOwned.child_write (h : TablesOwned m) (hn : Reached (child m) m.root n)
    (hlevel : n.level = 3) (a : Table) (j : Fin 512) (ha : Reached (child m) m.root a) :
    child (m.write n.frame i e) a j = child m a j := by
  by_cases hlast : a.level < 3
  · have hne : a.frame ≠ n.frame := by
      intro heq
      have hsame := h.eq ha hn heq
      rw [hsame] at hlast
      omega
    rw [child, m.mem_write_of_ne hne, child]
  · rw [child, if_neg (fun hall => hlast hall.1), child, if_neg (fun hall => hlast hall.1)]

/-- Setting an entry of a last table keeps the tables apart. -/
theorem TablesOwned.write (h : TablesOwned m) (hn : Reached (child m) m.root n)
    (hlevel : n.level = 3) : TablesOwned (m.write n.frame i e) := by
  have hwalk := walk_eq_of_reached (h.child_write i e hn hlevel)
  constructor
  case apart =>
    intro p q a b ha hb heq
    exact h.apart p q a b ((hwalk p).symm.trans ha) ((hwalk q).symm.trans hb) heq
  case used =>
    rintro a ⟨p, ha⟩
    exact h.used a ⟨p, (hwalk p).symm.trans ha⟩
  case bounded => exact h.bounded

/-- Setting an entry of a last table changes where the walks of its page end, and no other. -/
theorem TablesOwned.resolve_write (h : TablesOwned m)
    (hn : walk (child m) m.root (tableIndices virt) = some n) (other : Nat) :
    resolve other (m.write n.frame (tableIndex virt 12) e) =
      if pageOf other = pageOf virt then .ofEntry e else resolve other m := by
  have hreach : Reached (child m) m.root n := ⟨_, hn⟩
  have hlevel := level_of_tableIndices hn
  have hdesc := descend_eq_of_reached (h.child_write (tableIndex virt 12) e hreach hlevel)
  rw [resolve, resolve]
  change resolveEnd _ other (descend _ m.root _) = _
  rw [hdesc]
  rcases hd : descend (child m) m.root (tableIndices other) with ⟨b, rest⟩
  obtain ⟨q, hq, hb, -⟩ := descend_eq hd
  split
  · next hpage =>
    -- The walk of the page ends at the entry that was set.
    obtain ⟨hindices, hindex⟩ := (pageOf_eq_iff _ _).mp hpage
    rw [hindices, descend_eq_nil_iff.mpr hn] at hd
    cases hd
    rw [resolveEnd, hindex, Resolved.ofEntry, Machine.write]
    simp
  · next hpage =>
    cases rest with
    | nil =>
      rw [List.append_nil] at hq
      have hword : (m.write n.frame (tableIndex virt 12) e).mem b.frame (tableIndex other 12) =
          m.mem b.frame (tableIndex other 12) := by
        rw [Machine.write]
        dsimp only
        rw [if_neg]
        rintro ⟨hframe, hindex⟩
        apply hpage
        rw [pageOf_eq_iff, hq]
        exact ⟨h.apart q _ b n hb hn hframe, hindex⟩
      rw [resolveEnd, hword, resolveEnd]
    | cons j rest =>
      have hne : b.frame ≠ n.frame := by
        intro heq
        have hlen := congrArg List.length hq
        rw [h.apart q _ b n hb hn heq, List.length_append, List.length_cons] at hlen
        change 3 = 3 + _ at hlen
        omega
      rw [resolveEnd, m.mem_write_of_ne hne, resolveEnd]

end Leaf

/-! ### Outcomes of the operations -/

/-- What `map_page` does: it fails and adds only empty tables, or it sets the entry of the page in a
last table after adding empty tables. -/
theorem TablesOwned.mapPage_cases (h : TablesOwned m) (hl : LargeFree virt m) (phys flags : Nat) :
    (∃ m₁, Grown m m₁ ∧ mapPage virt phys flags m = (false, m₁)) ∨
    ∃ m₁ n, Grown m m₁ ∧ walk (child m₁) m₁.root (tableIndices virt) = some n ∧
      mapPage virt phys flags m =
        (true, m₁.write n.frame (tableIndex virt 12) (kernelLeaf phys flags)) := by
  have hspec {r : Option Nat} {m₁ : Machine}
      (hcall : ensureTables m.pml4 (tableIndices virt) m = (r, m₁)) :=
    ensureTables_spec h hl (p := []) rfl rfl hcall
  rw [mapPage]
  split
  · next m₁ heq => exact .inl ⟨m₁, (hspec heq).1, rfl⟩
  · next pt m₁ heq =>
    obtain ⟨hgrown, hwalk⟩ := hspec heq
    refine .inr ⟨m₁, ⟨3, pt⟩, hgrown, ?_, rfl⟩
    rw [Machine.root, hgrown.pml4]
    exact hwalk pt rfl

/-! ### Changes outside the tables -/

/-- The words of all tables stay. -/
def SameTables (m m' : Machine) : Prop :=
  m'.pml4 = m.pml4 ∧ ∀ a, Reached (child m) m.root a → m'.mem a.frame = m.mem a.frame

namespace SameTables

variable (h : SameTables m m')

include h

private theorem root : m'.root = m.root := by
  rw [Machine.root, h.1, Machine.root]

private theorem child_eq (a : Table) (i : Fin 512) (ha : Reached (child m) m.root a) :
    child m' a i = child m a i := by
  rw [child, h.2 a ha, child]

/-- The tables reached stay. -/
theorem reached_iff (a : Table) : Reached (child m') m'.root a ↔ Reached (child m) m.root a := by
  apply exists_congr
  intro p
  rw [h.root, walk_eq_of_reached h.child_eq]

/-- Walks end where they ended. -/
theorem resolve_eq (virt : Nat) : resolve virt m' = resolve virt m := by
  rw [resolve, h.root, descend_eq_of_reached h.child_eq, resolve]
  rcases hd : descend (child m) m.root (tableIndices virt) with ⟨n, rest⟩
  obtain ⟨p, -, hn, -⟩ := descend_eq hd
  cases rest with
  | nil | cons i rest => rw [resolveEnd, h.2 n ⟨p, hn⟩, resolveEnd]

/-- Tables stay apart, as long as none becomes free. -/
theorem owned (ho : TablesOwned m) (htotal : m'.pmm.totalPages = m.pmm.totalPages)
    (hused : ∀ a, Reached (child m) m.root a → a.frame / pageSize ∉ freeSet m'.pmm) :
    TablesOwned m' := by
  constructor
  case apart =>
    intro p q a b ha hb heq
    rw [h.root, walk_eq_of_reached h.child_eq] at ha hb
    exact ho.apart p q a b ha hb heq
  case used =>
    intro a ha
    exact hused a ((h.reached_iff a).mp ha)
  case bounded =>
    rw [htotal]
    exact ho.bounded

end SameTables

/-- Walks of addresses in one page end alike. -/
theorem resolve_congr {v w : Nat} (h : pageOf v = pageOf w) (m : Machine) :
    resolve v m = resolve w m := by
  obtain ⟨hindices, hindex⟩ := (pageOf_eq_iff _ _).mp h
  rw [resolve, hindices, resolve]
  rcases descend (child m) m.root (tableIndices w) with ⟨n, rest⟩
  cases rest with
  | nil => rw [resolveEnd, hindex, resolveEnd]
  | cons i rest => rfl

end NasuaOS.Memory
