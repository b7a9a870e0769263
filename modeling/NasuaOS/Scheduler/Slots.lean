import NasuaOS.Scheduler.Effects

/-!
# What an interrupt does to each slot

The loops over the table change every slot by itself: the reaper clears slots of dead tasks, and the
wake-up makes a sleeper ready whose deadline is reached. So it can be said for one slot what it
holds when an interrupt chooses a task.
-/

namespace NasuaOS.Scheduler

open Base Function

variable {s s' : State} {i : Slot}

/-- A state after reaping: slots are as they were, or held a dead task and are clear. -/
structure Reaped (s s' : State) : Prop where
  tasks : ∀ i, s'.tasks i = s.tasks i ∨ (s'.tasks i = {} ∧ (s.tasks i).state = .dead)
  prMap : s'.prMap = s.prMap
  runningTaskId : s'.runningTaskId = s.runningTaskId
  nextTaskId : s'.nextTaskId = s.nextTaskId

namespace Reaped

private theorem refl (s : State) : Reaped s s := ⟨fun _ => .inl rfl, rfl, rfl, rfl⟩

private theorem reapSlot (h : Reaped s s') (destroys : Slot → Bool) (i : Slot) :
    Reaped s (reapSlot destroys s' i) := by
  rcases reapSlot_cases destroys s' i with ⟨log, heq⟩ | ⟨resources, -, hdead, -, heq⟩
  · rw [heq]
    exact ⟨h.tasks, h.prMap, h.runningTaskId, h.nextTaskId⟩
  · rw [heq]
    refine ⟨fun j => ?_, h.prMap, h.runningTaskId, h.nextTaskId⟩
    show update s'.tasks i {} j = _ ∨ update s'.tasks i {} j = _ ∧ _
    by_cases hj : j = i
    · subst hj
      rw [update_self]
      rcases h.tasks j with hsame | ⟨-, hwas⟩
      · exact .inr ⟨rfl, by rw [← hsame]; exact hdead⟩
      · exact .inr ⟨rfl, hwas⟩
    · rw [update_of_ne hj]
      exact h.tasks j

/-- A slot whose task is not dead. -/
theorem eq_of_ne_dead (h : Reaped s s') (hi : (s.tasks i).state ≠ .dead) : s'.tasks i = s.tasks i :=
    (h.tasks i).resolve_right fun hr => hi hr.2

end Reaped

/-- The reaper clears slots of dead tasks only. -/
theorem reapDeadTasks_reaped (destroys : Slot → Bool) (s : State) :
    Reaped s (reapDeadTasks destroys s) := by
  apply foldl_invariant _ _ _ (Reaped.refl s)
  intro t i _ h
  exact h.reapSlot destroys i

/-- A slot after the wake-up. -/
def wakeTask (now : Nat) (task : Task) : Task :=
  if task.state = .sleeping ∧ tickDeadlineReached now task.wakeTick = true then
    { task with state := .ready }
  else task

private theorem wakeSlot_eq (now : Nat) (s : State) (i : Slot) :
    wakeSlot now s i = s.setTask i (wakeTask now (s.tasks i)) := by
  unfold wakeSlot wakeTask
  split
  · rfl
  · rw [State.setTask, update_eq_self]

private theorem wakeSlots_eq (now : Nat) (slots : List Slot) (hslots : slots.Nodup) (s : State) :
    slots.foldl (wakeSlot now) s = { s with
      tasks := fun i => if i ∈ slots then wakeTask now (s.tasks i) else s.tasks i } := by
  induction slots generalizing s with
  | nil => simp
  | cons first rest ih =>
    obtain ⟨hfirst, hrest⟩ := List.nodup_cons.mp hslots
    rw [List.foldl_cons, ih hrest, wakeSlot_eq]
    simp only [State.setTask, List.mem_cons]
    congr 1
    funext j
    by_cases hj : j = first
    · subst hj
      simp [hfirst]
    · simp [hj]

private theorem wakeSleepingTasks_eq (now : Nat) (s : State) : wakeSleepingTasks now s = { s with
      tasks := fun i => if i ≠ 0 then wakeTask now (s.tasks i) else s.tasks i } := by
  rw [wakeSleepingTasks, wakeSlots_eq now taskSlots (List.nodup_finRange _).tail]
  simp only [mem_taskSlots]

private theorem saveCurrent_task (frame : Nat) (s : State) (i : Slot) :
    (saveCurrent frame s).tasks i = s.tasks i ∨ ((s.tasks i).state = .running ∧
        (saveCurrent frame s).tasks i = { s.tasks i with context := frame, state := .ready }) := by
  rcases saveCurrent_cases frame s with ⟨j, -, hr, heq⟩ | ⟨-, space, heq⟩
  · rw [heq]
    by_cases hij : i = j
    · subst hij
      exact .inr ⟨hr, update_self ..⟩
    · exact .inl (update_of_ne hij ..)
  · rw [heq]
    exact .inl rfl

/-- What a slot holds when an interrupt chooses a task. -/
inductive Prepared (frame now : Nat) (task : Task) : Task → Prop
  | same (h : wakeTask now task = task) (hrunning : task.state ≠ .running) :
      Prepared frame now task task
  | saved (h : task.state = .running) :
      Prepared frame now task { task with context := frame, state := .ready }
  | woken (h : task.state = .sleeping) (hreached : tickDeadlineReached now task.wakeTick = true) :
      Prepared frame now task { task with state := .ready }
  | reaped (h : task.state = .dead) : Prepared frame now task {}

private theorem wakeTask_of_ne {now : Nat} {task : Task} (h : task.state ≠ .sleeping) :
    wakeTask now task = task := if_neg fun hs => h hs.1

/-- The process map and the current id do not change before a task is chosen. -/
theorem prepare_tables (frame now : Nat) (destroys : Slot → Bool) (s : State) :
    (prepare frame now destroys s).prMap = s.prMap ∧
      (prepare frame now destroys s).runningTaskId = s.runningTaskId := by
  have hr := reapDeadTasks_reaped destroys (saveCurrent frame (noteFrame frame s))
  obtain ⟨hmap, hid⟩ : (saveCurrent frame (noteFrame frame s)).prMap = s.prMap ∧
      (saveCurrent frame (noteFrame frame s)).runningTaskId = s.runningTaskId := by
    rcases saveCurrent_cases frame (noteFrame frame s) with ⟨j, -, -, heq⟩ | ⟨-, space, heq⟩ <;>
      rw [heq] <;> exact ⟨rfl, rfl⟩
  rw [prepare, wakeSleepingTasks_eq]
  rw [hr.prMap, hr.runningTaskId, hmap, hid]
  exact ⟨rfl, rfl⟩

/-- Every slot is prepared. -/
theorem prepare_task (h : Sound s) {frame : Nat} (hframe : frame ≠ 0) (now : Nat)
    (destroys : Slot → Bool) (i : Slot) :
    Prepared frame now (s.tasks i) ((prepare frame now destroys s).tasks i) := by
  have hidle := (h.prepare hframe now destroys).2 i
  have hr := reapDeadTasks_reaped destroys (saveCurrent frame (noteFrame frame s))
  rw [prepare, wakeSleepingTasks_eq] at hidle ⊢
  dsimp only at hidle ⊢
  rcases saveCurrent_task frame (noteFrame frame s) i with hsame | ⟨hrunning, hsaved⟩
  · change (saveCurrent frame (noteFrame frame s)).tasks i = s.tasks i at hsame
    rcases hr.tasks i with ht | ⟨ht, hdead⟩
    · rw [hsame] at ht
      rw [ht] at hidle ⊢
      by_cases hwake : i ≠ 0 ∧ (s.tasks i).state = .sleeping ∧
          tickDeadlineReached now (s.tasks i).wakeTick = true
      · rw [if_pos hwake.1, wakeTask, if_pos hwake.2]
        exact .woken hwake.2.1 hwake.2.2
      · have hkeep : wakeTask now (s.tasks i) = s.tasks i := by
          refine if_neg fun hs => hwake ⟨?_, hs⟩
          rintro rfl
          rcases h.table.kernelState with h0 | h0 <;> rw [h0] at hs <;> cases hs.1
        rw [hkeep, ite_self] at hidle ⊢
        exact .same hkeep hidle
    · rw [ht, wakeTask_of_ne (by simp), ite_self]
      rw [hsame] at hdead
      exact .reaped hdead
  · have ht := hr.eq_of_ne_dead (i := i) (by rw [hsaved]; nofun)
    rw [ht, hsaved, wakeTask_of_ne (by simp), ite_self]
    exact .saved hrunning

end NasuaOS.Scheduler
