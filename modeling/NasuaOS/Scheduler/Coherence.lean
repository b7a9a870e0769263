import NasuaOS.Scheduler.Slots

/-!
# Coherence of the task table and the process map

In every run the process map holds exactly the live tasks, as long as `sleep_ticks` is not called
for a current task that is already dead: the code that calls it never does, since
`exit_current` does not return and `terminate_current_user_task` is followed by `on_interrupt`.
-/

namespace NasuaOS.Scheduler

open Base

variable {s s' : State} {i : Slot}

/-- Live tasks are registered. -/
def Registered (tasks : Slot → Task) (ids : List Nat) : Prop :=
  ∀ i, (tasks i).state.Live → (tasks i).id ∈ ids

namespace Registered

variable {tasks : Slot → Task} {ids ids' : List Nat}

private theorem update (h : Registered tasks ids) {t : Task} (ht : t.state.Live → t.id ∈ ids')
    (hother : ∀ j, j ≠ i → (tasks j).state.Live → (tasks j).id ∈ ids → (tasks j).id ∈ ids') :
    Registered (Function.update tasks i t) ids' := by
  intro j hj
  by_cases hji : j = i
  · rw [hji, Function.update_self] at hj ⊢
    exact ht hj
  · rw [Function.update_of_ne hji] at hj ⊢
    exact hother j hji hj (h j hj)

private theorem restate (h : Registered tasks ids) {t : Task} (hid : t.id = (tasks i).id)
    (ht : t.state.Live → (tasks i).state.Live) : Registered (Function.update tasks i t) ids := by
  apply h.update
  · intro hl
    rw [hid]
    exact h i (ht hl)
  · intro j _ _ hj
    exact hj

section

variable (h : Registered s.tasks s.prMap)

include h

private theorem reaped (hr : Reaped s s') : Registered s'.tasks s'.prMap := by
  intro i hi
  rw [hr.prMap]
  rcases hr.tasks i with heq | ⟨heq, -⟩
  · rw [heq] at hi ⊢
    exact h i hi
  · rw [heq] at hi
    exact absurd rfl hi.1

private theorem prepare (hs : Sound s) {frame : Nat} (hf : frame ≠ 0) (now : Nat) (destroys : Slot → Bool) :
    Registered (prepare frame now destroys s).tasks
      (Scheduler.prepare frame now destroys s).prMap := by
  intro i hi
  rw [(prepare_tables frame now destroys s).1]
  have hprepared := prepare_task hs hf now destroys i
  generalize (Scheduler.prepare frame now destroys s).tasks i = task at hprepared hi ⊢
  cases hprepared with
  | same => exact h i hi
  | saved hrunning => exact h i (hrunning ▸ TaskState.live_running)
  | woken hsleeping => exact h i (hsleeping ▸ TaskState.live_sleeping)
  | reaped => exact absurd rfl hi.1

private theorem kill (hs : Sound s) (hi : (s.tasks i).state ≠ .empty) :
    Registered (kill i s).tasks (Scheduler.kill i s).prMap := by
  apply h.update
  · intro hl
    exact absurd rfl hl.2
  · intro j hji hj hmem
    apply (PrMap.mem_remove_iff hs.table.nodup _ _).mpr
    refine ⟨?_, hmem⟩
    intro hid
    exact hji (hs.table.idInj j i hj.1 hi hid)

private theorem dispatch (hs : Sound s) {next : Slot} (hready : (s.tasks next).state = .ready) (frame : Nat)
    (activates : Bool) : Registered (dispatch next frame activates s).2.tasks
      (Scheduler.dispatch next frame activates s).2.prMap := by
  have hused : (s.tasks next).state ≠ .empty := by simp [hready]
  refine hs.dispatch_cases hready frame activates ?_ ?_
  · intro space stack
    apply h.restate
    · rfl
    · intro _
      rw [hready]
      exact TaskState.live_ready
  · exact fun _ _ _ => h.kill hs hused

private theorem enrolled (he : Enrolled s s') : Registered s'.tasks s'.prMap := by
  cases he with
  | refused log => exact h
  | filled fresh range =>
    apply h.update
    · intro _
      exact List.mem_append_right _ (List.mem_singleton_self _)
    · intro j _ _ hj
      exact List.mem_append_left _ hj

end

end Registered

/-- `init` registers the kernel's task. -/
theorem registered_init (s : State) : Registered (init s).tasks (init s).prMap := by
  intro j hj
  by_cases h0 : j = 0
  · rw [h0]
    exact List.mem_singleton_self 1
  · change (Function.update (fun _ => ({} : Task)) 0 _ j).state.Live at hj
    rw [Function.update_of_ne h0] at hj
    exact absurd rfl hj.1

/-- `sleep_ticks` is not called for a dead task. -/
def NoDeadSleeper (s : State) : Op → Prop
  | .sleepTicks ticks _ => ticks ≠ 0 → currentState s ≠ some .dead
  | _ => True

instance (s : State) : (op : Op) → Decidable (NoDeadSleeper s op)
  | .sleepTicks _ _ => inferInstanceAs (Decidable (_ → _))
  | .init | .createTask .. | .createUserTask .. | .exitCurrent | .terminateCurrentUserTask _
  | .onInterrupt .. => isTrue trivial

private theorem Registered.effect (h : Registered s.tasks s.prMap) (hs : Sound s) {op : Op}
    (hop : NoDeadSleeper s op) (he : Effect op s s') : Registered s'.tasks s'.prMap := by
  cases he with
  | quiet log => exact h
  | created destroys enrolled => exact (h.reaped (reapDeadTasks_reaped destroys s)).enrolled enrolled
  | slept call positive current nonzero =>
    apply h.restate
    · rfl
    · intro _
      refine ⟨(findTask_some current).2, ?_⟩
      intro hdead
      rw [call] at hop
      apply hop positive
      rw [currentState, current, Option.map_some, hdead]
  | killed current nonzero finished =>
    have hf : Sound { s with finished := finished } :=
      ⟨hs.table, hs.ledger, hs.nextTaskId, hs.initialized⟩
    exact Registered.kill (s := { s with finished := finished }) h hf (findTask_some current).2
  | init => exact registered_init s

private theorem Registered.run (h : Registered s.tasks s.prMap) (hs : Sound s) {op : Op}
    (hop : NoDeadSleeper s op) (hrun : op.run s = some s') : Registered s'.tasks s'.prMap := by
  cases hs.turn_of_run hrun with
  | effect he => exact h.effect hs hop he
  | interrupt hf _ hp _ hready => exact (h.prepare hs hf _ _).dispatch hp hready _ _

/-- The two tables agree, and nothing was released twice or too early. -/
structure Coherent (s : State) : Prop where
  /-- The process map holds exactly the live tasks. -/
  mapped : ∀ id, id ∈ s.prMap ↔ ∃ i, (s.tasks i).id = id ∧ (s.tasks i).state.Live
  nodup : s.prMap.Nodup
  nonzero : 0 ∉ s.prMap
  distinct : ∀ i j, (s.tasks i).state ≠ .empty → (s.tasks j).state ≠ .empty →
    (s.tasks i).id = (s.tasks j).id → i = j
  /-- The kernel's task is ready or running. -/
  kernel : (s.tasks 0).id = 1 ∧ ((s.tasks 0).state = .ready ∨ (s.tasks 0).state = .running)
  oneRunning : ∀ i j, (s.tasks i).state = .running → (s.tasks j).state = .running → i = j
  releasedOnce : (s.history.released.map fun r => (r.resource, r.task.serial)).Nodup
  releasedDead : ∀ r ∈ s.history.released, r.task.state = .dead ∧ r.task.id ≠ r.runningTaskId

private theorem Sound.coherent (h : Sound s) (hr : Registered s.tasks s.prMap) : Coherent s := by
  constructor
  case mapped =>
    intro id
    constructor
    · exact h.table.mapped id
    · rintro ⟨i, rfl, hl⟩
      exact hr i hl
  case nodup => exact h.table.nodup
  case nonzero => exact h.table.zero_not_mem
  case distinct => exact h.table.idInj
  case kernel => exact ⟨h.table.kernelId, h.table.kernelState⟩
  case oneRunning =>
    intro i j hi hj
    apply h.table.idInj i j (by simp [hi]) (by simp [hj])
    rw [h.table.running i hi, h.table.running j hj]
  case releasedOnce => exact h.ledger.once
  case releasedDead => exact h.ledger.dead

/-- The state after the first `init` is sound. -/
theorem sound_boot : Sound (init boot) :=
  sound_init (by simp [boot]) (by simp [boot]) (by simp [boot])

/-- Every run returns, and its last state keeps what each call keeps. -/
theorem Sound.runOps (h : Sound s) (ops : List Op) : ∃ s', runOps ops s = some s' ∧ Sound s' := by
  induction ops generalizing s with
  | nil => exact ⟨s, rfl, h⟩
  | cons op rest ih =>
    obtain ⟨s₁, hrun, h₁⟩ := h.run op
    obtain ⟨s', hrest, h'⟩ := ih h₁
    refine ⟨s', ?_, h'⟩
    rw [Scheduler.runOps, hrun]
    exact hrest

/-- Live tasks stay registered over whole runs. -/
theorem Registered.runOps (hr : Registered s.tasks s.prMap) (h : Sound s) (ops : List Op)
    (hops : Throughout NoDeadSleeper ops s) (hrun : runOps ops s = some s') :
    Registered s'.tasks s'.prMap := by
  induction ops generalizing s with
  | nil =>
    cases hrun
    exact hr
  | cons op rest ih =>
    obtain ⟨s₁, hrun₁, h₁⟩ := h.run op
    rw [Scheduler.runOps, hrun₁] at hrun
    exact ih (hr.run h hops.1 hrun₁) h₁ (hops.2 s₁ hrun₁) hrun

/-- In every run from `init` that puts no dead task to sleep, every call returns and the two tables
stay coherent, whatever the answers of the allocator and of the address space functions. -/
theorem tables_coherent (ops : List Op) (hops : Throughout NoDeadSleeper ops (init boot)) :
    ∃ s, runOps ops (init boot) = some s ∧ Coherent s := by
  obtain ⟨s, hrun, hs⟩ := sound_boot.runOps ops
  exact ⟨s, hrun, hs.coherent ((registered_init boot).runOps sound_boot ops hops hrun)⟩

/-- A stack for the runs below. -/
def block : Block := ⟨65536, by decide, by decide⟩

/-- A user task is created, runs, and is terminated. -/
def userTaskDies : List Op :=
  [.createUserTask (some ⟨4096, 0, 1, true⟩) 16384 42 true true (fun _ => true) (some block),
    .onInterrupt 256 0 true (fun _ => true),
    .terminateCurrentUserTask 7]

/-- The user task dies, another one sleeps, and both tables stay coherent. -/
theorem tables_coherent_userTaskDies :
    ∃ s, runOps (userTaskDies ++ [.onInterrupt 512 0 true fun _ => true,
      .createTask 1 0 (fun _ => true) (some block), .onInterrupt 768 0 true fun _ => true,
      .sleepTicks 5 0]) (init boot) = some s ∧ Coherent s :=
  tables_coherent _ (by decide +kernel)

/-- A terminated task that sleeps before the next interrupt is sleeping but not in the process
map. -/
theorem dead_sleeper_unregistered :
    ∃ s, runOps (userTaskDies ++ [.sleepTicks 5 0]) (init boot) = some s ∧ ¬Coherent s := by
  have h : (runOps (userTaskDies ++ [.sleepTicks 5 0]) (init boot)).any (fun s =>
      decide ((s.tasks 1).state.Live) && decide ((s.tasks 1).id ∉ s.prMap)) = true := by
    decide +kernel
  rw [Option.any_eq_true] at h
  obtain ⟨s, hs, h⟩ := h
  rw [Bool.and_eq_true, decide_eq_true_eq, decide_eq_true_eq] at h
  refine ⟨s, hs, ?_⟩
  intro hc
  exact h.2 ((hc.mapped _).mpr ⟨1, rfl, h.1⟩)

end NasuaOS.Scheduler
