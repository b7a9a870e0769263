import NasuaOS.Scheduler.Tasks
import Mathlib.Data.Fintype.Pigeonhole
import Mathlib.Tactic.Ring

/-!
# Looking tasks up and taking ids

What `find_task`, the search for an empty slot and `next_ready_task` return, and why the search for
an unused id ends: the counter passes more different ids than the table has slots, also across
the end of the 32-bit range.
-/

namespace NasuaOS.Scheduler

open Function

variable {tasks : Slot → Task}

variable {id next : Nat} {i : Slot}

/-- A task found is in use and has the id. -/
theorem findTask_some (h : findTask tasks id = some i) :
    (tasks i).id = id ∧ (tasks i).state ≠ .empty := by
  have hp := List.find?_some h
  exact of_decide_eq_true hp

/-- A task not found is not there. -/
theorem findTask_none (h : findTask tasks id = none) (i : Slot) (hi : (tasks i).state ≠ .empty) :
    (tasks i).id ≠ id := by
  intro heq
  have hp := List.find?_eq_none.mp h i (List.mem_finRange i)
  exact hp (decide_eq_true ⟨heq, hi⟩)

/-- Where ids differ, a task in use is found by its id. -/
theorem findTask_eq_some (hinj : ∀ i j, (tasks i).state ≠ .empty → (tasks j).state ≠ .empty →
      (tasks i).id = (tasks j).id → i = j) (hi : (tasks i).state ≠ .empty) :
    findTask tasks (tasks i).id = some i := by
  cases h : findTask tasks (tasks i).id with
  | none => exact absurd rfl (findTask_none h i hi)
  | some j =>
    have hj := findTask_some h
    rw [hinj j i hj.2 hi hj.1]

/-- The loops over the table leave out slot 0. -/
theorem mem_taskSlots : i ∈ taskSlots ↔ i ≠ 0 := by
  revert i
  decide

/-- A slot found empty is empty and not the kernel's. -/
theorem freeSlot_some (h : freeSlot tasks = some i) : i ≠ 0 ∧ (tasks i).state = .empty := by
  have hp := List.find?_some h
  exact ⟨mem_taskSlots.mp (List.mem_of_find?_eq_some h), of_decide_eq_true hp⟩

/-- The task that the search stops at is ready and registered. -/
theorem searchReady_some {ids : List Nat} (hne : ids ≠ []) {count candidateId : Nat}
    (h : searchReady tasks ids count candidateId = some i) :
    (tasks i).state = .ready ∧ (tasks i).id ∈ ids ∧ findTask tasks (tasks i).id = some i := by
  induction count generalizing candidateId with
  | zero => cases h
  | succ count ih =>
    rw [searchReady] at h
    split at h
    · next j hj =>
      split at h
      · next hr =>
        cases h
        have hid := (findTask_some hj).1
        refine ⟨hr, ?_, by rw [hid, hj]⟩
        rw [hid]
        exact PrMap.next_mem hne candidateId
      · exact ih h
    · exact ih h

/-- A search passes over a task only if it is not ready. -/
theorem searchReady_none {ids : List Nat} {count candidateId : Nat}
    (h : searchReady tasks ids count candidateId = none) (k : Nat) (hk : k < count) (i : Slot)
    (hi : findTask tasks ((PrMap.next ids)^[k + 1] candidateId) = some i) :
    (tasks i).state ≠ .ready := by
  induction count generalizing candidateId k with
  | zero => omega
  | succ count ih =>
    rw [searchReady] at h
    have hrest : searchReady tasks ids count (PrMap.next ids candidateId) = none ∧
        ∀ j, findTask tasks (PrMap.next ids candidateId) = some j → (tasks j).state ≠ .ready := by
      split at h
      · next j hj =>
        split at h
        · cases h
        · next hr =>
          refine ⟨h, ?_⟩
          intro j' hj'
          rw [hj] at hj'
          cases hj'
          exact hr
      · next hn =>
        refine ⟨h, ?_⟩
        intro j' hj'
        rw [hn] at hj'
        cases hj'
    cases k with
    | zero => exact hrest.2 i hi
    | succ k =>
      rw [iterate_succ_apply] at hi
      exact ih hrest.1 k (by omega) hi

private theorem advanceTaskId_eq (next : Nat) (h : 2 ≤ next ∧ next < 2 ^ 32) :
    advanceTaskId next = 2 + (next - 2 + 1) % (2 ^ 32 - 2) := by
  rw [advanceTaskId]
  by_cases hlast : next + 1 = 2 ^ 32
  · rw [hlast, Nat.mod_self, if_pos (by omega)]
    have : next - 2 + 1 = 2 ^ 32 - 2 := by omega
    rw [this, Nat.mod_self]
  · rw [Nat.mod_eq_of_lt (by omega), if_neg (by omega), Nat.mod_eq_of_lt (by omega)]
    omega

private theorem advanceTaskId_range (h : 2 ≤ next ∧ next < 2 ^ 32) :
    2 ≤ advanceTaskId next ∧ advanceTaskId next < 2 ^ 32 := by
  rw [advanceTaskId_eq next h]
  have := Nat.mod_lt (next - 2 + 1) (show 0 < 2 ^ 32 - 2 by decide)
  omega

private theorem iterate_advanceTaskId (next k : Nat) (h : 2 ≤ next ∧ next < 2 ^ 32) :
    advanceTaskId^[k] next = 2 + (next - 2 + k) % (2 ^ 32 - 2) := by
  induction k with
  | zero =>
    rw [iterate_zero_apply, Nat.add_zero, Nat.mod_eq_of_lt (by omega)]
    omega
  | succ k ih =>
    rw [iterate_succ_apply', ih, advanceTaskId_eq _ (by omega),
      Nat.add_sub_cancel_left, Nat.mod_add_mod, Nat.add_assoc]

/-- An id that was taken is new, and the counter stays in its range. -/
theorem takeTaskId_some {fuel next' : Nat} (hn : 2 ≤ next ∧ next < 2 ^ 32)
    (h : takeTaskId tasks fuel next = some (id, next')) :
    id ≠ 0 ∧ findTask tasks id = none ∧ 2 ≤ next' ∧ next' < 2 ^ 32 := by
  induction fuel generalizing next with
  | zero => cases h
  | succ fuel ih =>
    rw [takeTaskId] at h
    split at h
    · exact ih (advanceTaskId_range hn) h
    · next hfree =>
      rw [not_or, Bool.not_eq_true, Option.isSome_eq_false_iff, Option.isNone_iff_eq_none] at hfree
      cases h
      exact ⟨hfree.1, hfree.2, advanceTaskId_range hn⟩

private theorem takeTaskId_none {fuel : Nat} (hn : 2 ≤ next ∧ next < 2 ^ 32)
    (h : takeTaskId tasks fuel next = none) (k : Nat) (hk : k < fuel) :
    ∃ i, (tasks i).id = advanceTaskId^[k] next := by
  induction fuel generalizing next k with
  | zero => omega
  | succ fuel ih =>
    rw [takeTaskId] at h
    split at h
    · next hused =>
      cases k with
      | zero =>
        rcases hused with h0 | hsome
        · omega
        · obtain ⟨i, hi⟩ := Option.isSome_iff_exists.mp hsome
          exact ⟨i, (findTask_some hi).1⟩
      | succ k =>
        rw [iterate_succ_apply]
        exact ih (advanceTaskId_range hn) h k (by omega)
    · cases h

/-- One round more than there are slots is enough to find an id. -/
theorem takeTaskId_ends (tasks : Slot → Task) (hn : 2 ≤ next ∧ next < 2 ^ 32) :
    takeTaskId tasks (maxTasks + 1) next ≠ none := by
  intro h
  have hused : ∀ k : Fin (maxTasks + 1), ∃ i, (tasks i).id = advanceTaskId^[k] next :=
    fun k => takeTaskId_none hn h k k.isLt
  choose slot hslot using hused
  -- Two of the 33 ids would have to share one of the 32 slots.
  obtain ⟨a, b, hne, hab⟩ := Fintype.exists_ne_map_eq_of_card_lt slot (by simp)
  have heq : advanceTaskId^[a] next = advanceTaskId^[b] next := by
    rw [← hslot a, ← hslot b, hab]
  rw [iterate_advanceTaskId _ _ hn, iterate_advanceTaskId _ _ hn] at heq
  have ha : a.val < 33 := a.isLt
  have hb : b.val < 33 := b.isLt
  apply hne
  apply Fin.ext
  omega

end NasuaOS.Scheduler
