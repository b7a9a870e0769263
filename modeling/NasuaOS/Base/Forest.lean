import Mathlib.Data.List.Induction
import Mathlib.Data.List.Nodup

/-!
# Walks from the root of a forest

A child function names, for a node and a label, the node below. When no two labelled edges
lead to the same node and none leads to the root, a node has one walk from the root: the
structure is a tree however it is stored.
-/

namespace NasuaOS.Base

open List

variable {N I : Type} {child child' : N → I → Option N} {P : N → Prop} {n c root : N}
  {labels p : List I} {i : I}

/-- Follow labels from a node. -/
def walk (child : N → I → Option N) : N → List I → Option N
  | n, [] => some n
  | n, i :: labels => (child n i).bind fun c => walk child c labels

/-- A walk along a concatenation is two walks. -/
theorem walk_append (child : N → I → Option N) (n : N) (p q : List I) :
    walk child n (p ++ q) = (walk child n p).bind fun c => walk child c q := by
  induction p generalizing n with
  | nil => rfl
  | cons i p ih =>
    simp only [cons_append, walk]
    cases child n i with
    | none => rfl
    | some c => exact ih c

/-- A walk with one more label. -/
theorem walk_snoc (h : walk child n p = some c) (i : I) : walk child n (p ++ [i]) = child c i := by
  rw [walk_append, h]
  simp [walk]

/-- A walk with a last label ends on an edge. -/
theorem walk_concat (h : walk child n (p ++ [i]) = some c) :
    ∃ d, walk child n p = some d ∧ child d i = some c := by
  rw [walk_append, Option.bind_eq_some_iff] at h
  obtain ⟨d, hd, hc⟩ := h
  refine ⟨d, hd, ?_⟩
  simpa [walk] using hc

private theorem walk_invariant (hn : P n) (hs : ∀ a i b, P a → child a i = some b → P b)
    (h : walk child n p = some c) : P c := by
  induction p generalizing n with
  | nil =>
    simp only [walk, Option.some.injEq] at h
    exact h ▸ hn
  | cons i p ih =>
    simp only [walk, Option.bind_eq_some_iff] at h
    obtain ⟨d, hd, hc⟩ := h
    exact ih (hs n i d hn hd) hc

/-- Child functions that agree on the nodes of a closed set have the same walks there. -/
theorem walk_congr (child child' : N → I → Option N) (n : N) (p : List I) (hn : P n)
    (hs : ∀ a i b, P a → child a i = some b → P b) (heq : ∀ a i, P a → child' a i = child a i) :
    walk child' n p = walk child n p := by
  induction p generalizing n with
  | nil => rfl
  | cons i p ih =>
    simp only [walk, heq n i hn]
    cases hc : child n i with
    | none => rfl
    | some c => exact ih c (hs n i c hn hc)

/-- With injective edges that avoid the root, a node is reached along one label list only. -/
theorem walk_injective (child : N → I → Option N) (root : N) (hroot : P root)
    (hs : ∀ a i b, P a → child a i = some b → P b) (avoid : ∀ a i, P a → child a i ≠ some root)
    (inj : ∀ a i b j c, P a → P b → child a i = some c → child b j = some c → a = b ∧ i = j)
    (p q : List I) (c : N) (hp : walk child root p = some c) (hq : walk child root q = some c) :
    p = q := by
  induction p using reverseRecOn generalizing q c with
  | nil =>
    -- The root is the end of no edge, so the other walk is empty too.
    cases q using reverseRecOn with
    | nil => rfl
    | append_singleton q j =>
      obtain ⟨d, hd, hc⟩ := walk_concat hq
      simp only [walk, Option.some.injEq] at hp
      subst hp
      exact absurd hc (avoid d j (walk_invariant hroot hs hd))
  | append_singleton p i ih =>
    obtain ⟨a, ha, hca⟩ := walk_concat hp
    have hPa := walk_invariant hroot hs ha
    cases q using reverseRecOn with
    | nil =>
      simp only [walk, Option.some.injEq] at hq
      subst hq
      exact absurd hca (avoid a i hPa)
    | append_singleton q j =>
      obtain ⟨b, hb, hcb⟩ := walk_concat hq
      have hPb := walk_invariant hroot hs hb
      obtain ⟨rfl, rfl⟩ := inj a i b j c hPa hPb hca hcb
      rw [ih q a ha hb]

/-- Follow labels as far as there are edges: the last node, and the labels left. -/
def descend (child : N → I → Option N) : N → List I → N × List I
  | n, [] => (n, [])
  | n, i :: labels =>
    match child n i with
    | none => (n, i :: labels)
    | some c => descend child c labels

/-- A descent goes on from the end of a walk. -/
theorem descend_append (h : walk child n p = some c) (q : List I) :
    descend child n (p ++ q) = descend child c q := by
  induction p generalizing n with
  | nil =>
    cases h
    rfl
  | cons i p ih =>
    simp only [walk, Option.bind_eq_some_iff] at h
    obtain ⟨d, hd, hc⟩ := h
    rw [cons_append, descend, hd]
    exact ih hc

/-- A descent is a walk that uses labels up to one without an edge. -/
theorem descend_eq {rest : List I} (h : descend child n labels = (c, rest)) :
    ∃ p, labels = p ++ rest ∧ walk child n p = some c ∧
      ∀ i q, rest = i :: q → child c i = none := by
  induction labels generalizing n with
  | nil =>
    cases h
    exact ⟨[], rfl, rfl, by simp⟩
  | cons i labels ih =>
    rw [descend] at h
    split at h
    · next hnone =>
      cases h
      refine ⟨[], rfl, rfl, ?_⟩
      intro j q heq
      cases heq
      exact hnone
    · next d hd =>
      obtain ⟨p, rfl, hwalk, hend⟩ := ih h
      refine ⟨i :: p, rfl, ?_, hend⟩
      simp only [walk, hd, Option.bind_some]
      exact hwalk

/-- A descent that uses every label is a walk. -/
theorem descend_eq_nil_iff : descend child n labels = (c, []) ↔ walk child n labels = some c := by
  constructor
  · intro h
    obtain ⟨p, rfl, hwalk, -⟩ := descend_eq h
    rwa [append_nil]
  · intro h
    have heq := descend_append h []
    rwa [append_nil] at heq

/-- Nodes on a walk from the root. -/
def Reached (child : N → I → Option N) (root n : N) : Prop := ∃ p, walk child root p = some n

/-- An edge from a reached node reaches a node. -/
theorem Reached.edge (h : Reached child root n) (hc : child n i = some c) :
    Reached child root c := by
  obtain ⟨p, hp⟩ := h
  exact ⟨p ++ [i], (walk_snoc hp i).trans hc⟩

/-- Child functions that agree on the nodes reached have the same walks. -/
theorem walk_eq_of_reached (heq : ∀ a i, Reached child root a → child' a i = child a i)
    (p : List I) : walk child' root p = walk child root p :=
  walk_congr child child' root p ⟨[], rfl⟩
    (fun _ _ _ ha hc => ha.edge hc) heq

/-- Child functions that agree on the nodes reached have the same descents. -/
theorem descend_eq_of_reached (heq : ∀ a i, Reached child root a → child' a i = child a i)
    (p : List I) : descend child' root p = descend child root p := by
  rcases hd : descend child root p with ⟨c, rest⟩
  obtain ⟨q, rfl, hwalk, hend⟩ := descend_eq hd
  rw [descend_append ((walk_eq_of_reached heq q).trans hwalk)]
  cases rest with
  | nil => rfl
  | cons i rest => rw [descend, heq c i ⟨q, hwalk⟩, hend i rest rfl]

/-- When one edge of a node with one walk changes, and nothing is below where it led and leads, one
walk changes and no other. -/
theorem walk_edge [DecidableEq I] {a : N} (parent : walk child root p = some a)
    (single : ∀ q, walk child root q = some a → q = p)
    (bare : ∀ t, child a i = some t → ∀ j, child t j = none)
    (bare' : ∀ t, child' a i = some t → ∀ j, child' t j = none)
    (same : ∀ b j, Reached child root b → (b ≠ a ∨ j ≠ i) → child' b j = child b j) (q : List I) :
    walk child' root q = if q = p ++ [i] then child' a i else walk child root q := by
  induction q using reverseRecOn with
  | nil =>
    rw [if_neg (by simp)]
    rfl
  | append_singleton q j ih =>
    rw [walk_append, ih, walk_append]
    by_cases hq : q = p ++ [i]
    · -- Nothing is below the end of the edge, before and after.
      have hbefore : (walk child root q).bind (walk child · [j]) = none := by
        rw [hq, walk_snoc parent]
        cases ht : child a i with
        | none => rfl
        | some t => simp [walk, bare t ht]
      rw [if_pos hq, hbefore, if_neg (by simp [hq])]
      cases ht : child' a i with
      | none => rfl
      | some t => simp [walk, bare' t ht]
    · rw [if_neg hq]
      by_cases heq : q ++ [j] = p ++ [i]
      · obtain ⟨rfl, rfl⟩ := append_singleton_inj.mp heq
        simp [walk, parent]
      · rw [if_neg heq]
        cases hb : walk child root q with
        | none => rfl
        | some b =>
          have hne : b ≠ a ∨ j ≠ i := by
            by_contra hboth
            push Not at hboth
            obtain ⟨rfl, rfl⟩ := hboth
            exact heq (by rw [single q hb])
          simp [walk, same b j ⟨q, hb⟩ hne]

/-- The second child function has one more edge, from a node with one walk to a node without
edges. -/
structure Grafted (child child' : N → I → Option N) (root : N) (p : List I) (i : I) (a t : N) :
    Prop where
  parent : walk child root p = some a
  single : ∀ q, walk child root q = some a → q = p
  absent : child a i = none
  edge : child' a i = some t
  bare : ∀ j, child' t j = none
  same : ∀ b j, Reached child root b → (b ≠ a ∨ j ≠ i) → child' b j = child b j

namespace Grafted

variable {a t : N} (h : Grafted child child' root p i a t)

include h

/-- The new edge adds one walk and changes no other. -/
theorem walk_eq [DecidableEq I] (q : List I) :
    walk child' root q = if q = p ++ [i] then some t else walk child root q := by
  rw [← h.edge]
  refine walk_edge h.parent h.single (by simp [h.absent]) ?_ h.same q
  intro c hc
  cases h.edge.symm.trans hc
  exact h.bare

/-- Walks that existed stay. -/
theorem walk_mono {q : List I} {b : N} (hb : walk child root q = some b) :
    walk child' root q = some b := by
  classical
  rw [h.walk_eq, if_neg, hb]
  rintro rfl
  rw [walk_snoc h.parent, h.absent] at hb
  cases hb

/-- A descent that ended at the new edge takes it. -/
theorem descend_edge {labels rest : List I} (hd : descend child root labels = (a, i :: rest)) :
    descend child' root labels = (t, rest) := by
  obtain ⟨q, rfl, hwalk, -⟩ := descend_eq hd
  rw [descend_append (h.walk_mono hwalk), descend, h.edge]
  cases rest with
  | nil => rfl
  | cons j rest =>
    simp only
    rw [descend, h.bare]

/-- A descent that ended elsewhere is the same. -/
theorem descend_other {labels rest : List I} {b : N} (hd : descend child root labels = (b, rest))
    (hne : ∀ q, (b, rest) ≠ (a, i :: q)) : descend child' root labels = (b, rest) := by
  obtain ⟨q, rfl, hwalk, hend⟩ := descend_eq hd
  rw [descend_append (h.walk_mono hwalk)]
  cases rest with
  | nil => rfl
  | cons j rest =>
    have hother : b ≠ a ∨ j ≠ i := by
      by_contra hboth
      push Not at hboth
      obtain ⟨rfl, rfl⟩ := hboth
      exact hne rest rfl
    rw [descend, h.same b j ⟨q, hwalk⟩ hother, hend j rest rfl]

end Grafted

/-- The nodes below a node to a depth, each after the nodes below it. -/
def postorder (child : N → I → Option N) (labels : List I) : Nat → N → List N
  | 0, n => [n]
  | depth + 1, n =>
    (labels.flatMap fun i => (child n i).elim [] (postorder child labels depth)) ++ [n]

private theorem mem_below {depth : Nat} {i : I} :
    c ∈ (child n i).elim [] (postorder child labels depth) ↔
      ∃ d, child n i = some d ∧ c ∈ postorder child labels depth d := by
  cases child n i with
  | none | some d => simp

/-- The list has the ends of the walks to its depth. -/
theorem mem_postorder (hall : ∀ i, i ∈ labels) {depth : Nat} :
    c ∈ postorder child labels depth n ↔ ∃ p, p.length ≤ depth ∧ walk child n p = some c := by
  induction depth generalizing n with
  | zero =>
    rw [postorder, mem_singleton]
    constructor
    · rintro rfl
      exact ⟨[], Nat.le_refl _, rfl⟩
    · rintro ⟨p, hp, hwalk⟩
      rw [eq_nil_of_length_eq_zero (Nat.le_zero.mp hp)] at hwalk
      exact (Option.some.inj hwalk).symm
  | succ depth ih =>
    rw [postorder, mem_append, mem_flatMap, mem_singleton]
    constructor
    · rintro (⟨i, -, hc⟩ | rfl)
      · obtain ⟨d, hd, hc⟩ := mem_below.mp hc
        obtain ⟨p, hp, hwalk⟩ := ih.mp hc
        exact ⟨i :: p, Nat.succ_le_succ hp, by rw [walk, hd]; exact hwalk⟩
      · exact ⟨[], Nat.zero_le _, rfl⟩
    · rintro ⟨p, hp, hwalk⟩
      cases p with
      | nil =>
        right
        exact (Option.some.inj hwalk).symm
      | cons i p =>
        left
        simp only [walk, Option.bind_eq_some_iff] at hwalk
        obtain ⟨d, hd, hwalk⟩ := hwalk
        exact ⟨i, hall i, mem_below.mpr ⟨d, hd, ih.mpr ⟨p, Nat.le_of_succ_le_succ hp, hwalk⟩⟩⟩

/-- When no two walks end alike, the list has no repetition. -/
theorem nodup_postorder {F : Type} {f : N → F} (hall : ∀ i, i ∈ labels) (hlabels : labels.Nodup)
    {depth : Nat} (hinj : ∀ p q a b, walk child n p = some a → walk child n q = some b → f a = f b → p = q) :
    ((postorder child labels depth n).map f).Nodup := by
  induction depth generalizing n with
  | zero => exact nodup_singleton _
  | succ depth ih =>
    -- A node below the label `i` is the end of a walk that starts with `i`.
    have hbelow (i : I) (x : F)
        (hx : x ∈ ((child n i).elim [] (postorder child labels depth)).map f) :
        ∃ p c, walk child n (i :: p) = some c ∧ f c = x := by
      obtain ⟨c, hc, rfl⟩ := mem_map.mp hx
      obtain ⟨d, hd, hc⟩ := mem_below.mp hc
      obtain ⟨p, -, hwalk⟩ := (mem_postorder hall).mp hc
      exact ⟨p, c, by rw [walk, hd]; exact hwalk, rfl⟩
    rw [postorder, map_append, map_flatMap, nodup_append]
    refine ⟨nodup_flatMap.mpr ⟨?_, ?_⟩, nodup_singleton _, ?_⟩
    · intro i _
      cases hd : child n i with
      | none => exact nodup_nil
      | some d =>
        apply ih
        intro p q a b ha hb heq
        have hcons := hinj (i :: p) (i :: q) a b (by rw [walk, hd]; exact ha)
          (by rw [walk, hd]; exact hb) heq
        exact tail_eq_of_cons_eq hcons
    · apply hlabels.imp
      intro i j hne x hx hy
      obtain ⟨p, a, ha, rfl⟩ := hbelow i x hx
      obtain ⟨q, b, hb, heq⟩ := hbelow j _ hy
      exact hne (head_eq_of_cons_eq (hinj _ _ a b ha hb heq.symm))
    · intro x hx y hy heq
      obtain ⟨i, -, hx⟩ := mem_flatMap.mp hx
      obtain ⟨p, c, hc, rfl⟩ := hbelow i x hx
      rw [map_singleton, mem_singleton] at hy
      rw [hy] at heq
      exact cons_ne_nil _ _ (hinj _ [] c n hc rfl heq)

/-- A fold over the list goes below each label in turn and then to the node. -/
theorem foldl_postorder {σ : Type} (f : σ → N → σ) (child : N → I → Option N) (labels : List I)
    (depth : Nat) (n : N) (x : σ) : (postorder child labels (depth + 1) n).foldl f x =
      f (labels.foldl (fun x i =>
        (child n i).elim x fun c => (postorder child labels depth c).foldl f x) x) n := by
  have hbody (x : σ) (i : I) : ((child n i).elim [] (postorder child labels depth)).foldl f x =
      (child n i).elim x fun c => (postorder child labels depth c).foldl f x := by
    cases child n i with
    | none | some c => rfl
  rw [postorder, foldl_append, foldl_flatMap]
  simp only [hbody]
  rfl

end NasuaOS.Base
