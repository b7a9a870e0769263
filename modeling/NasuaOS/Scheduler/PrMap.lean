import Mathlib.Data.List.GetD
import Mathlib.Data.List.Rotate

/-!
# The process map

`src/kernel_64bit/src/system/scheduler/pr_map/pr_map.cpp`. The array of task ids and its count
are the list of the ids in use; `next` is the cyclic order in which the scheduler looks for a
ready task.
-/

namespace NasuaOS.Scheduler

open List

/-- `PrMap::CAPACITY`. -/
def capacity : Nat := 32

namespace PrMap

/-- `PrMap::add`; `none` when it returns false. -/
def add (ids : List Nat) (taskId : Nat) : Option (List Nat) :=
  if taskId = 0 ∨ ids.length = capacity then none
  else if taskId ∈ ids then none
  else some (ids ++ [taskId])

/-- `PrMap::remove`. -/
def remove (ids : List Nat) (taskId : Nat) : List Nat := ids.erase taskId

/-- `PrMap::next`. -/
def next (ids : List Nat) (currentTaskId : Nat) : Nat :=
  if ids = [] then 0
  else if currentTaskId ∈ ids then ids.getD ((ids.idxOf currentTaskId + 1) % ids.length) 0
  else ids.getD 0 0

variable {ids : List Nat}

/-- What a successful registration does. -/
theorem add_eq_some_iff {ids' : List Nat} {taskId : Nat} : add ids taskId = some ids' ↔
      taskId ≠ 0 ∧ ids.length ≠ capacity ∧ taskId ∉ ids ∧ ids' = ids ++ [taskId] := by
  rw [add]
  split
  · next h =>
    constructor
    · intro hn
      cases hn
    · rintro ⟨h0, hc, -, -⟩
      rcases h with h | h
      · exact absurd h h0
      · exact absurd h hc
  · next h =>
    rw [not_or] at h
    split
    · next hm =>
      constructor
      · intro hn
        cases hn
      · rintro ⟨-, -, hn, -⟩
        exact absurd hm hn
    · next hm =>
      rw [Option.some.injEq]
      constructor
      · intro heq
        exact ⟨h.1, h.2, hm, heq.symm⟩
      · rintro ⟨-, -, -, heq⟩
        exact heq.symm

/-- Removal of an id that stands once. -/
theorem mem_remove_iff (h : ids.Nodup) (a taskId : Nat) :
    a ∈ remove ids taskId ↔ a ≠ taskId ∧ a ∈ ids := h.mem_erase_iff

/-- Place in the cyclic order from which a search starts: the current id, or just before the
first when it is not registered. -/
def place (ids : List Nat) (currentTaskId : Nat) : Nat :=
  if currentTaskId ∈ ids then ids.idxOf currentTaskId else ids.length - 1

private theorem next_eq (ids : List Nat) (currentTaskId : Nat) (h : ids ≠ []) :
    next ids currentTaskId = ids.getD ((place ids currentTaskId + 1) % ids.length) 0 := by
  have hpos : 0 < ids.length := length_pos_iff.mpr h
  rw [next, if_neg h, place]
  split
  · rfl
  · rw [Nat.sub_add_cancel hpos, Nat.mod_self]

/-- The successor is registered. -/
theorem next_mem (h : ids ≠ []) (currentTaskId : Nat) : next ids currentTaskId ∈ ids := by
  have hlt := Nat.mod_lt (place ids currentTaskId + 1) (length_pos_iff.mpr h)
  rw [next_eq ids currentTaskId h, getD_eq_getElem _ _ hlt]
  exact getElem_mem hlt

private theorem place_getD (h : ids.Nodup) {n : Nat} (hn : n < ids.length) :
    place ids (ids.getD n 0) = n := by
  have hget : ids.getD n 0 = ids[n] := getD_eq_getElem _ _ hn
  rw [hget, place, if_pos (getElem_mem hn)]
  exact h.idxOf_getElem n hn

private theorem iterate_next (h : ids.Nodup) (hne : ids ≠ []) (currentTaskId k : Nat) :
    (next ids)^[k + 1] currentTaskId =
      ids.getD ((place ids currentTaskId + (k + 1)) % ids.length) 0 := by
  have hpos : 0 < ids.length := length_pos_iff.mpr hne
  induction k with
  | zero => exact next_eq ids currentTaskId hne
  | succ k ih =>
    rw [Function.iterate_succ_apply', ih, next_eq _ _ hne, place_getD h (Nat.mod_lt _ hpos)]
    congr 1
    rw [Nat.mod_add_mod]
    congr 1

/-- The search passes every registered id within one round. -/
theorem exists_iterate_next (h : ids.Nodup) (currentTaskId : Nat) {a : Nat} (ha : a ∈ ids) :
    ∃ k < ids.length, (next ids)^[k + 1] currentTaskId = a := by
  have hne : ids ≠ [] := ne_nil_of_mem ha
  have hpos : 0 < ids.length := length_pos_iff.mpr hne
  obtain ⟨n, hn, rfl⟩ := getElem_of_mem ha
  have hplace : place ids currentTaskId < ids.length := by
    rw [place]
    split
    · next hm => exact idxOf_lt_length_of_mem hm
    · omega
  -- The distance from the place after the current one to the place of `a`.
  generalize hp : place ids currentTaskId = p at hplace
  refine ⟨(n + ids.length - (p + 1)) % ids.length, Nat.mod_lt _ hpos, ?_⟩
  rw [iterate_next h hne, hp, ← getD_eq_getElem ids 0 hn]
  congr 1
  by_cases hle : p + 1 ≤ n
  · have hmod : (n + ids.length - (p + 1)) % ids.length = n - (p + 1) := by
      rw [show n + ids.length - (p + 1) = n - (p + 1) + ids.length by omega,
        Nat.add_mod_right, Nat.mod_eq_of_lt (by omega)]
    rw [hmod, show p + (n - (p + 1) + 1) = n by omega, Nat.mod_eq_of_lt hn]
  · have hmod : (n + ids.length - (p + 1)) % ids.length = n + ids.length - (p + 1) :=
      Nat.mod_eq_of_lt (by omega)
    rw [hmod, show p + (n + ids.length - (p + 1) + 1) = n + ids.length by omega,
      Nat.add_mod_right, Nat.mod_eq_of_lt hn]

/-- Registered ids in the order in which a search passes them. -/
def following (ids : List Nat) (currentTaskId : Nat) : List Nat :=
  ids.rotate (place ids currentTaskId + 1)

/-- The search goes from one successor to the next. -/
theorem following_eq (h : ids.Nodup) (currentTaskId : Nat) : following ids currentTaskId =
      (range ids.length).map fun k => (next ids)^[k + 1] currentTaskId := by
  apply ext_getElem
  · simp [following]
  · intro k hk _
    have hlen : k < ids.length := by simpa [following] using hk
    have hne : ids ≠ [] := length_pos_iff.mp (Nat.zero_lt_of_lt hlen)
    have hlt := Nat.mod_lt (place ids currentTaskId + (k + 1)) (length_pos_iff.mpr hne)
    rw [getElem_map, getElem_range, iterate_next h hne, getD_eq_getElem _ _ hlt]
    simp only [following, getElem_rotate]
    congr 2
    omega

/-- The order behind an id that is passed: what follows it, then what stood before it. -/
theorem following_of_passed {before behind : List Nat} {currentTaskId a : Nat} (h : ids.Nodup)
    (hpassed : following ids currentTaskId = before ++ a :: behind) :
    following ids a = behind ++ (before ++ [a]) := by
  have hlen : before.length < (following ids currentTaskId).length := by simp [hpassed]
  have hget : (following ids currentTaskId)[before.length] = a := by simp [hpassed]
  have hlen' : (following ids currentTaskId).length = ids.length := length_rotate ..
  -- The place of `a` is that of the current id, moved by the number of ids before `a`.
  have hplace : place ids a = (before.length + (place ids currentTaskId + 1)) % ids.length := by
    simp only [following, getElem_rotate] at hget
    have hlt : (before.length + (place ids currentTaskId + 1)) % ids.length < ids.length :=
      Nat.mod_lt _ (by omega)
    rw [← hget, ← getD_eq_getElem _ 0 hlt, place_getD h hlt]
  calc following ids a
      = ids.rotate (place ids a + 1) := rfl
    _ = ids.rotate (place ids currentTaskId + 1 + (before.length + 1)) := by
      rw [hplace, ← rotate_mod, Nat.mod_add_mod, rotate_mod]
      congr 1
      omega
    _ = (following ids currentTaskId).rotate (before ++ [a]).length := by
      rw [following, rotate_rotate, length_append, length_singleton]
    _ = behind ++ (before ++ [a]) := by
      rw [hpassed, ← singleton_append, ← append_assoc, rotate_append_length_eq]

end PrMap

end NasuaOS.Scheduler
