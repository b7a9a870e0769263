import NasuaOS.Base.Stateful
import NasuaOS.Scheduler.Ids

/-!
# The invariant of the task table

`Table` couples the task slots, the process map and the current id; `Ledger` couples the slots with
what has been released. A call changes one slot at a time: it changes the state of a task, clears
the slot of a dead one or fills an empty one. Each of these keeps the two.
-/

namespace NasuaOS.Scheduler

open Base Finset List

/-- States of a task that has not died. -/
def TaskState.Live (state : TaskState) : Prop := state ≠ .empty ∧ state ≠ .dead

instance (state : TaskState) : Decidable state.Live := inferInstanceAs (Decidable (_ ∧ _))

/-- Ready tasks are live. -/
theorem TaskState.live_ready : TaskState.ready.Live := by decide

/-- Running tasks are live. -/
theorem TaskState.live_running : TaskState.running.Live := by decide

/-- Sleeping tasks are live. -/
theorem TaskState.live_sleeping : TaskState.sleeping.Live := by decide

/-- The slots, the process map and the current id agree. The kernel's task sits in slot 0, and only
it may lack a saved frame, before it is interrupted for the first time. -/
structure Table (tasks : Slot → Task) (ids : List Nat) (current : Nat) : Prop where
  kernelId : (tasks 0).id = 1
  kernelMode : (tasks 0).userMode = false
  kernelState : (tasks 0).state = .ready ∨ (tasks 0).state = .running
  kernelMapped : 1 ∈ ids
  idNonzero : ∀ i, (tasks i).state ≠ .empty → (tasks i).id ≠ 0
  idInj : ∀ i j, (tasks i).state ≠ .empty → (tasks j).state ≠ .empty →
    (tasks i).id = (tasks j).id → i = j
  nodup : ids.Nodup
  mapped : ∀ a ∈ ids, ∃ i, (tasks i).id = a ∧ (tasks i).state.Live
  running : ∀ i, (tasks i).state = .running → (tasks i).id = current
  saved : ∀ i, (tasks i).state ≠ .empty → (tasks i).context = 0 →
    i = 0 ∧ (tasks i).state = .running

/-- Every task in use has a number of its own, and nothing it holds has been released. -/
structure Ledger (tasks : Slot → Task) (created : Nat) (released : List Release) : Prop where
  serialInj : ∀ i j, (tasks i).state ≠ .empty → (tasks j).state ≠ .empty →
    (tasks i).serial = (tasks j).serial → i = j
  serialLt : ∀ i, (tasks i).state ≠ .empty → (tasks i).serial < created
  unreleased : ∀ i, (tasks i).state ≠ .empty → ∀ r ∈ released, r.task.serial ≠ (tasks i).serial
  releasedLt : ∀ r ∈ released, r.task.serial < created
  once : (released.map fun r => (r.resource, r.task.serial)).Nodup
  dead : ∀ r ∈ released, r.task.state = .dead ∧ r.task.id ≠ r.runningTaskId

variable {tasks : Slot → Task} {ids : List Nat} {current : Nat}

/-- A key that tells the tasks in use apart still does when one slot gets a task with a new key. -/
private theorem key_update {key : Task → Nat} (h : ∀ j k, (tasks j).state ≠ .empty →
      (tasks k).state ≠ .empty → key (tasks j) = key (tasks k) → j = k) {i : Slot} {t : Task}
    (hnew : t.state ≠ .empty → ∀ j, j ≠ i → (tasks j).state ≠ .empty → key (tasks j) ≠ key t) :
    ∀ j k, (Function.update tasks i t j).state ≠ .empty →
      (Function.update tasks i t k).state ≠ .empty →
      key (Function.update tasks i t j) = key (Function.update tasks i t k) → j = k := by
  intro j k hj hk hjk
  by_cases hji : j = i <;> by_cases hki : k = i
  · rw [hji, hki]
  · subst hji
    rw [Function.update_self] at hj hjk
    rw [Function.update_of_ne hki] at hk hjk
    exact absurd hjk.symm (hnew hj k hki hk)
  · subst hki
    rw [Function.update_self] at hk hjk
    rw [Function.update_of_ne hji] at hj hjk
    exact absurd hjk (hnew hk j hji hj)
  · rw [Function.update_of_ne hji] at hj hjk
    rw [Function.update_of_ne hki] at hk hjk
    exact h j k hj hk hjk

namespace Table

variable {i : Slot}

section

variable (h : Table tasks ids current)

include h

/-- Task 1 is the one in slot 0. -/
theorem eq_zero (hi : (tasks i).state ≠ .empty) (hid : (tasks i).id = 1) : i = 0 := by
  apply h.idInj i 0 hi
  · rcases h.kernelState with hs | hs <;> simp [hs]
  · rw [hid, h.kernelId]

/-- Registered ids are not 0. -/
theorem zero_not_mem : 0 ∉ ids := by
  intro h0
  obtain ⟨i, hid, hlive⟩ := h.mapped 0 h0
  exact h.idNonzero i hlive.1 hid

/-- A registered task is live. -/
theorem live_of_mem (hi : (tasks i).state ≠ .empty) (hmem : (tasks i).id ∈ ids) :
    (tasks i).state.Live := by
  obtain ⟨j, hid, hlive⟩ := h.mapped _ hmem
  rw [h.idInj i j hi hlive.1 hid.symm]
  exact hlive

/-- Replace one task, under an id of its own. -/
private theorem update (t : Task) {ids' : List Nat} {current' : Nat}
    (hkernel : i = 0 → t.id = 1 ∧ t.userMode = false ∧ (t.state = .ready ∨ t.state = .running))
    (hmem : 1 ∈ ids') (hnodup : ids'.Nodup) (hid : t.state ≠ .empty → t.id ≠ 0 ∧
      ∀ j, j ≠ i → (tasks j).state ≠ .empty → (tasks j).id ≠ t.id)
    (hmapped : ∀ a ∈ ids', t.id = a ∧ t.state.Live ∨
      ∃ j, j ≠ i ∧ (tasks j).id = a ∧ (tasks j).state.Live)
    (hrun : t.state = .running → t.id = current')
    (hother : ∀ j, j ≠ i → (tasks j).state = .running → (tasks j).id = current')
    (hsaved : t.state ≠ .empty → t.context = 0 → i = 0 ∧ t.state = .running) :
    Table (Function.update tasks i t) ids' current' := by
  have hzero : (Function.update tasks i t 0).id = 1 ∧
      (Function.update tasks i t 0).userMode = false ∧
      ((Function.update tasks i t 0).state = .ready ∨
        (Function.update tasks i t 0).state = .running) := by
    by_cases h0 : 0 = i
    · subst h0
      rw [Function.update_self]
      exact hkernel rfl
    · rw [Function.update_of_ne h0]
      exact ⟨h.kernelId, h.kernelMode, h.kernelState⟩
  constructor
  case kernelId => exact hzero.1
  case kernelMode => exact hzero.2.1
  case kernelState => exact hzero.2.2
  case kernelMapped => exact hmem
  case idNonzero =>
    apply (Function.forall_update_iff tasks fun _ t => t.state ≠ .empty → t.id ≠ 0).mpr
    exact ⟨fun ht => (hid ht).1, fun j _ => h.idNonzero j⟩
  case idInj => exact key_update h.idInj fun ht => (hid ht).2
  case nodup => exact hnodup
  case mapped =>
    intro a ha
    rcases hmapped a ha with ht | ⟨j, hji, hj⟩
    · exact ⟨i, by rwa [Function.update_self]⟩
    · exact ⟨j, by rwa [Function.update_of_ne hji]⟩
  case running =>
    apply (Function.forall_update_iff tasks fun _ t => t.state = .running → t.id = current').mpr
    exact ⟨hrun, hother⟩
  case saved =>
    apply (Function.forall_update_iff tasks fun j t =>
      t.state ≠ .empty → t.context = 0 → j = 0 ∧ t.state = .running).mpr
    exact ⟨hsaved, fun j _ => h.saved j⟩

/-- Change the state of one task, and drop ids of tasks that are not live any more. -/
theorem restate (t : Task) {ids' : List Nat} {current' : Nat} (hi : (tasks i).state ≠ .empty)
    (hid : t.id = (tasks i).id) (hmode : t.userMode = (tasks i).userMode)
    (hkernel : i = 0 → t.state = .ready ∨ t.state = .running) (hmem : 1 ∈ ids')
    (hsub : ids'.Sublist ids) (hlive : t.id ∈ ids' → t.state.Live)
    (hrun : t.state = .running → t.id = current')
    (hother : ∀ j, j ≠ i → (tasks j).state = .running → (tasks j).id = current')
    (hsaved : t.context = 0 → i = 0 ∧ t.state = .running) :
    Table (Function.update tasks i t) ids' current' := by
  apply h.update t _ hmem (h.nodup.sublist hsub) _ _ hrun hother (fun _ => hsaved)
  · rintro rfl
    exact ⟨hid.trans h.kernelId, hmode.trans h.kernelMode, hkernel rfl⟩
  · intro _
    rw [hid]
    exact ⟨h.idNonzero i hi, fun j hji hj heq => hji (h.idInj j i hj hi heq)⟩
  · intro a ha
    obtain ⟨j, rfl, hjl⟩ := h.mapped a (hsub.subset ha)
    by_cases hji : j = i
    · rw [hji, ← hid] at ha ⊢
      exact .inl ⟨rfl, hlive ha⟩
    · exact .inr ⟨j, hji, rfl, hjl⟩

/-- Clear the slot of a dead task. -/
theorem clear (hi : i ≠ 0) (hdead : (tasks i).state = .dead) :
    Table (Function.update tasks i {}) ids current := by
  apply h.update {} (fun h0 => absurd h0 hi) h.kernelMapped h.nodup (fun ht => absurd rfl ht) _
    (by simp) (fun j _ => h.running j) (fun ht => absurd rfl ht)
  intro a ha
  obtain ⟨j, hj, hjl⟩ := h.mapped a ha
  refine .inr ⟨j, ?_, hj, hjl⟩
  rintro rfl
  exact hjl.2 hdead

/-- Fill an empty slot with a ready task under an unused id. -/
theorem fill {t : Task} (hi : i ≠ 0) (hempty : (tasks i).state = .empty)
    (hnew : findTask tasks t.id = none) (hid : t.id ≠ 0) (ht : t.state = .ready)
    (hcontext : t.context ≠ 0) : Table (Function.update tasks i t) (ids ++ [t.id]) current := by
  apply h.update t (fun h0 => absurd h0 hi) (mem_append_left _ h.kernelMapped) _
    (fun _ => ⟨hid, fun j _ => findTask_none hnew j⟩) _ (by simp [ht]) (fun j _ => h.running j)
    (fun _ h0 => absurd h0 hcontext)
  · apply h.nodup.append (nodup_singleton _)
    rw [List.disjoint_singleton]
    intro hmem
    obtain ⟨j, hj, hjl⟩ := h.mapped _ hmem
    exact findTask_none hnew j hjl.1 hj
  · intro a ha
    rw [List.mem_append, List.mem_singleton] at ha
    rcases ha with ha | rfl
    · obtain ⟨j, hj, hjl⟩ := h.mapped a ha
      refine .inr ⟨j, ?_, hj, hjl⟩
      rintro rfl
      exact hjl.1 hempty
    · exact .inl ⟨rfl, ht ▸ TaskState.live_ready⟩

private theorem length_lt (hempty : (tasks i).state = .empty) : ids.length < capacity := by
  have hsub : ids.toFinset ⊆ (univ.erase i).image fun j => (tasks j).id := by
    intro a ha
    obtain ⟨j, hj, hjl⟩ := h.mapped a (mem_toFinset.mp ha)
    refine mem_image.mpr ⟨j, ?_, hj⟩
    apply mem_erase_of_ne_of_mem _ (mem_univ j)
    rintro rfl
    exact hjl.1 hempty
  calc ids.length = ids.toFinset.card := (toFinset_card_of_nodup h.nodup).symm
    _ ≤ ((univ.erase i).image fun j => (tasks j).id).card := card_le_card hsub
    _ ≤ (univ.erase i).card := card_image_le
    _ < capacity := by
      rw [card_erase_of_mem (mem_univ i)]
      decide

/-- An unused id can be registered while a slot is empty. -/
theorem add_eq_some (hempty : (tasks i).state = .empty) {id : Nat} (hid : id ≠ 0)
    (hnew : findTask tasks id = none) : PrMap.add ids id = some (ids ++ [id]) := by
  rw [PrMap.add_eq_some_iff]
  refine ⟨hid, (h.length_lt hempty).ne, ?_, rfl⟩
  intro hmem
  obtain ⟨j, hj, hjl⟩ := h.mapped _ hmem
  exact findTask_none hnew j hjl.1 hj

end

end Table

namespace Ledger

variable {created : Nat} {released : List Release}

variable {i : Slot} {t : Task}

section

variable (h : Ledger tasks created released)

include h

/-- Replace one task, under a number of its own. -/
private theorem update (ht : t.state ≠ .empty → t.serial < created ∧
      (∀ j, j ≠ i → (tasks j).state ≠ .empty → (tasks j).serial ≠ t.serial) ∧
      ∀ r ∈ released, r.task.serial ≠ t.serial) :
    Ledger (Function.update tasks i t) created released where
  serialInj := key_update h.serialInj fun hused => (ht hused).2.1
  serialLt := (Function.forall_update_iff tasks fun _ t =>
    t.state ≠ .empty → t.serial < created).mpr ⟨fun hused => (ht hused).1, fun j _ => h.serialLt j⟩
  unreleased := (Function.forall_update_iff tasks fun _ t =>
    t.state ≠ .empty → ∀ r ∈ released, r.task.serial ≠ t.serial).mpr
      ⟨fun hused => (ht hused).2.2, fun j _ => h.unreleased j⟩
  releasedLt := h.releasedLt
  once := h.once
  dead := h.dead

/-- Change the state of one task. -/
theorem restate (hi : (tasks i).state ≠ .empty) (ht : t.serial = (tasks i).serial) :
    Ledger (Function.update tasks i t) created released := by
  apply h.update
  intro _
  rw [ht]
  exact ⟨h.serialLt i hi, fun j hji hj heq => hji (h.serialInj j i hj hi heq), h.unreleased i hi⟩

/-- Release what a dead task holds and clear its slot. -/
theorem clear (hdead : (tasks i).state = .dead) (hcurrent : (tasks i).id ≠ current)
    {resources : List Resource} (hnd : resources.Nodup) :
    Ledger (Function.update tasks i {}) created
      (released ++ resources.map fun r => ⟨r, tasks i, current⟩) := by
  have hused : (tasks i).state ≠ .empty := by simp [hdead]
  have hcleared : Ledger (Function.update tasks i {}) created released :=
    h.update fun hne => absurd rfl hne
  have hold : ∀ r ∈ released, r.task.serial ≠ (tasks i).serial := h.unreleased i hused
  have hnew (P : Release → Prop) (hreleased : ∀ r ∈ released, P r)
      (hi : ∀ resource, P ⟨resource, tasks i, current⟩) :
      ∀ r ∈ released ++ resources.map fun r => ⟨r, tasks i, current⟩, P r := by
    simpa [or_imp, forall_and] using ⟨hreleased, fun r _ => hi r⟩
  constructor
  case serialInj => exact hcleared.serialInj
  case serialLt => exact hcleared.serialLt
  case unreleased =>
    intro j hj
    apply hnew _ (hcleared.unreleased j hj)
    intro _ hs
    by_cases hji : j = i
    · rw [hji, Function.update_self] at hj
      exact hj rfl
    · rw [Function.update_of_ne hji] at hj hs
      exact hji (h.serialInj i j hused hj hs).symm
  case releasedLt => exact hnew _ h.releasedLt fun _ => h.serialLt i hused
  case once =>
    rw [List.map_append, List.map_map]
    apply h.once.append
    · apply hnd.map
      intro a b hab
      exact (Prod.mk.inj hab).1
    · intro p hp hq
      obtain ⟨r, hr, rfl⟩ := mem_map.mp hp
      obtain ⟨res, -, heq⟩ := mem_map.mp hq
      exact hold r hr (Prod.mk.inj heq).2.symm
  case dead => exact hnew _ h.dead fun _ => ⟨hdead, hcurrent⟩

/-- Fill an empty slot with a task under the next number. -/
theorem fill (ht : t.serial = created) :
    Ledger (Function.update tasks i t) (created + 1) released := by
  have hmore : Ledger tasks (created + 1) released :=
    { h with
      serialLt := fun j hj => Nat.lt_succ_of_lt (h.serialLt j hj)
      releasedLt := fun r hr => Nat.lt_succ_of_lt (h.releasedLt r hr) }
  apply hmore.update
  intro _
  rw [ht]
  exact ⟨Nat.lt_succ_self _, fun j _ hj => (h.serialLt j hj).ne, fun r hr => (h.releasedLt r hr).ne⟩

end

end Ledger

end NasuaOS.Scheduler
