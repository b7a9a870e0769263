import Mathlib.Data.List.Basic

/-!
# Ring buffers

An array of `size` slots that is read as a queue: the items stand in the slots from the slot of
`start` on, around the end. Positions are counts, so a start that has gone round is as good as its
remainder.
-/

namespace NasuaOS.Base

open Function List

variable {α : Type} {ring : Nat → α} {size start : Nat} {items : List α}

/-- The items stand in the slots from the slot of `start` on. -/
def Window (ring : Nat → α) (size start : Nat) (items : List α) : Prop :=
  ∀ j x, items[j]? = some x → ring ((start + j) % size) = x

/-- No items. -/
theorem Window.nil (ring : Nat → α) (size start : Nat) : Window ring size start [] := by
  intro j x h
  cases h

/-- Any part of an array is a window. -/
theorem Window.contents (ring : Nat → α) (size start n : Nat) :
    Window ring size start ((range n).map fun j => ring ((start + j) % size)) := by
  intro j x hj
  rw [getElem?_map] at hj
  obtain ⟨i, hi, rfl⟩ := Option.map_eq_some_iff.mp hj
  obtain ⟨hlt, rfl⟩ := List.getElem?_eq_some_iff.mp hi
  rw [getElem_range]

private theorem slot_ne_of_lt {i j : Nat} (hij : i < j) (hj : j < size) :
    (start + i) % size ≠ (start + j) % size := by
  intro heq
  have hz := Nat.sub_mod_eq_zero_of_mod_eq heq.symm
  rw [Nat.mod_eq_of_lt (by omega)] at hz
  omega

/-- Store one more item behind the others. -/
theorem Window.push (h : Window ring size start items) (hroom : items.length < size) (x : α) :
    Window (update ring ((start + items.length) % size) x) size start (items ++ [x]) := by
  intro j y hj
  by_cases hlt : j < items.length
  · rw [getElem?_append_left hlt] at hj
    rw [update_of_ne (slot_ne_of_lt hlt hroom)]
    exact h j y hj
  · have hlen : j < (items ++ [x]).length := (List.getElem?_eq_some_iff.mp hj).1
    rw [length_append, length_singleton] at hlen
    obtain rfl : j = items.length := by omega
    rw [getElem?_append_right (Nat.le_refl _), Nat.sub_self, getElem?_cons_zero,
      Option.some.injEq] at hj
    rw [update_self]
    exact hj

/-- Store into a slot behind the items. -/
theorem Window.update_free (h : Window ring size start items) {k : Nat} (hk : items.length ≤ k)
    (hsize : k < size) (x : α) :
    Window (update ring ((start + k) % size) x) size start items := by
  intro j y hj
  have hlt : j < items.length := (List.getElem?_eq_some_iff.mp hj).1
  rw [update_of_ne (slot_ne_of_lt (Nat.lt_of_lt_of_le hlt hk) hsize)]
  exact h j y hj

/-- The first item. -/
theorem Window.head {x : α} (h : Window ring size start (x :: items)) : ring (start % size) = x :=
  h 0 x rfl

/-- The items behind the first one. -/
theorem Window.tail {x : α} (h : Window ring size start (x :: items)) :
    Window ring size (start + 1) items := by
  intro j y hj
  have hnext := h (j + 1) y hj
  rwa [Nat.add_comm j 1, ← Nat.add_assoc] at hnext

/-- The items behind the first `n`. -/
theorem Window.drop (h : Window ring size start items) (n : Nat) :
    Window ring size (start + n) (items.drop n) := by
  intro j x hj
  rw [getElem?_drop] at hj
  rw [Nat.add_assoc]
  exact h (n + j) x hj

/-- The items are what stands in their slots. -/
theorem Window.eq_contents (h : Window ring size start items) :
    (range items.length).map (fun j => ring ((start + j) % size)) = items := by
  apply ext_getElem
  · rw [length_map, length_range]
  · intro j _ hj
    rw [getElem_map, getElem_range]
    exact h j items[j] (getElem?_eq_getElem hj)

end NasuaOS.Base
