import Mathlib.Data.List.Basic

/-!
# Pieces of a list

A piece of a list that starts at an index, for code that is read by its position. A piece is taken
apart as the list it is.
-/

namespace NasuaOS.Base

open List

variable {α : Type}

/-- The list has the piece at the index. -/
def SegmentAt (whole : List α) (base : Nat) (part : List α) : Prop := part <+: whole.drop base

namespace SegmentAt

variable {whole : List α} {base : Nat} {a : α} {front back : List α}

/-- A list is a piece of itself. -/
theorem self (whole : List α) : SegmentAt whole 0 whole := prefix_refl whole

/-- The first element of a piece. -/
theorem head (h : SegmentAt whole base (a :: back)) : whole[base]? = some a := by
  obtain ⟨rest, hrest⟩ := h
  have hget : (whole.drop base)[0]? = some a := by rw [← hrest]; rfl
  rwa [getElem?_drop, Nat.add_zero] at hget

/-- The first part of a piece. -/
theorem left (h : SegmentAt whole base (front ++ back)) : SegmentAt whole base front :=
  (prefix_append front back).trans h

/-- The second part of a piece. -/
theorem right (h : SegmentAt whole base (front ++ back)) :
    SegmentAt whole (base + front.length) back := by
  obtain ⟨rest, hrest⟩ := h
  refine ⟨rest, ?_⟩
  rw [← drop_drop, ← hrest, append_assoc, drop_left]

/-- Behind the first element of a piece. -/
theorem tail (h : SegmentAt whole base (a :: back)) : SegmentAt whole (base + 1) back :=
  @right α whole base [a] back h

/-- Two branches with an element before each. -/
theorem branches {a b : α} {front body other : List α}
    (h : SegmentAt whole base (front ++ a :: body ++ b :: other)) :
    SegmentAt whole base (front ++ a :: body) ∧ SegmentAt whole (base + front.length + 1) body ∧
      SegmentAt whole (base + front.length + 1 + body.length) (b :: other) := by
  refine ⟨h.left, h.left.right.tail, ?_⟩
  have hother := h.right
  rwa [length_append, length_cons, ← Nat.add_assoc, ← Nat.add_assoc,
    Nat.add_right_comm _ body.length 1] at hother

end SegmentAt

end NasuaOS.Base
