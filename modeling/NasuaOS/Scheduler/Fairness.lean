import NasuaOS.Scheduler.Coherence

/-!
# Turns

`src/kernel_64bit/src/system/scheduler/functions/scheduler.cpp:121–135,388–443`. The tasks that are
ready or running have an order: the process map from behind the current id, without the others. An
interrupt that wakes nobody chooses the first of this order and moves it to the end, so each task
has one turn in as many interrupts as there are such tasks.
-/

namespace NasuaOS.Scheduler

open Base Function List

variable {s s' : State} {i : Slot}

/-- A task that is ready or running. -/
def Task.Awake (task : Task) : Prop := task.state = .ready ∨ task.state = .running

instance (task : Task) : Decidable task.Awake := inferInstanceAs (Decidable (_ ∨ _))

/-- Some task with this id is ready or running. -/
def AwakeId (tasks : Slot → Task) (id : Nat) : Prop := ∃ i, (tasks i).id = id ∧ (tasks i).Awake

instance (tasks : Slot → Task) (id : Nat) : Decidable (AwakeId tasks id) :=
  inferInstanceAs (Decidable (∃ _, _))

/-- Slots of the tasks that are ready or running. -/
def awakeSlots (s : State) : List Slot := (finRange maxTasks).filter fun i => (s.tasks i).Awake

/-- Ids of these tasks in the cyclic order of the process map, from behind the current id. -/
def turnOrder (s : State) : List Nat :=
  (PrMap.following s.prMap s.runningTaskId).filter fun id => AwakeId s.tasks id

/-- An interrupt with a frame that can activate address spaces and whose time wakes no sleeper. -/
def Undisturbed (s : State) : Op → Prop
  | .onInterrupt frame now activates _ =>
    frame ≠ 0 ∧ activates = true ∧
      ∀ i, (s.tasks i).state = .sleeping → tickDeadlineReached now (s.tasks i).wakeTick = false
  | _ => False

instance (s : State) : (op : Op) → Decidable (Undisturbed s op)
  | .onInterrupt .. => inferInstanceAs (Decidable (_ ∧ _ ∧ _))
  | .init | .createTask .. | .createUserTask .. | .sleepTicks .. | .exitCurrent
  | .terminateCurrentUserTask _ => isFalse id

/-- The states after each call. -/
def statesAfter : List Op → State → List State
  | [], _ => []
  | op :: rest, s =>
    match op.run s with
    | none => []
    | some s' => s' :: statesAfter rest s'

/-- The ready task of an id. -/
def readyTask (tasks : Slot → Task) (id : Nat) : Option Slot :=
  (findTask tasks id).filter fun i => (tasks i).state = .ready

private theorem searchReady_eq (tasks : Slot → Task) (ids : List Nat) (count candidateId : Nat) :
    searchReady tasks ids count candidateId =
      ((range count).map fun k => (PrMap.next ids)^[k + 1] candidateId).findSome?
        (readyTask tasks) := by
  induction count generalizing candidateId with
  | zero => rfl
  | succ count ih =>
    rw [range_succ_eq_map, map_cons, findSome?_cons, map_map, searchReady]
    have hrest := ih (PrMap.next ids candidateId)
    simp only [comp_def, iterate_succ, iterate_zero, id_eq] at hrest ⊢
    rw [hrest, readyTask]
    cases findTask tasks (PrMap.next ids candidateId) with
    | none => rfl
    | some i =>
      by_cases hready : (tasks i).state = .ready
      · simp [Option.filter, hready]
      · simp [Option.filter, hready]

private theorem nextReadyTask_eq (h : s.prMap.Nodup) (currentId : Nat) :
    nextReadyTask s currentId = (PrMap.following s.prMap currentId).findSome?
      (readyTask s.tasks) := by
  rw [nextReadyTask, searchReady_eq, PrMap.following_eq h]

/-- The same tasks are ready or running. -/
def SameAwake (tasks tasks' : Slot → Task) : Prop :=
  ∀ i, ((tasks' i).Awake ↔ (tasks i).Awake) ∧ ((tasks i).Awake → (tasks' i).id = (tasks i).id)

private theorem SameAwake.awakeId {tasks tasks' : Slot → Task} (h : SameAwake tasks tasks')
    (id : Nat) : AwakeId tasks' id ↔ AwakeId tasks id := by
  constructor
  · rintro ⟨i, rfl, hi⟩
    have hi' := (h i).1.mp hi
    exact ⟨i, ((h i).2 hi').symm, hi'⟩
  · rintro ⟨i, rfl, hi⟩
    exact ⟨i, (h i).2 hi, (h i).1.mpr hi⟩

private theorem sameAwake_prepare (h : Sound s) {frame now : Nat} (hframe : frame ≠ 0)
    (hsleep : ∀ i, (s.tasks i).state = .sleeping →
      tickDeadlineReached now (s.tasks i).wakeTick = false) (destroys : Slot → Bool) :
    SameAwake s.tasks (prepare frame now destroys s).tasks := by
  intro i
  have hprepared := prepare_task h hframe now destroys i
  generalize (prepare frame now destroys s).tasks i = task at hprepared ⊢
  cases hprepared with
  | same => exact ⟨Iff.rfl, fun _ => rfl⟩
  | saved hrunning => exact ⟨⟨fun _ => .inr hrunning, fun _ => .inl rfl⟩, fun _ => rfl⟩
  | woken hsleeping hreached =>
    rw [hsleep i hsleeping] at hreached
    cases hreached
  | reaped hdead => simp [Task.Awake, hdead]

private theorem dispatch_turn (h : Sound s) (hidle : Idle s) {next : Slot}
    (hn : nextReadyTask s s.runningTaskId = some next) (hmap : s'.prMap = s.prMap)
    (hid : s'.runningTaskId = (s.tasks next).id) (hsame : SameAwake s.tasks s'.tasks) :
    ∃ rest, turnOrder s = s'.runningTaskId :: rest ∧ turnOrder s' = rest ++ [s'.runningTaskId] := by
  rw [nextReadyTask_eq h.table.nodup, findSome?_eq_some_iff] at hn
  obtain ⟨before, a, behind, hsplit, ha, hbefore⟩ := hn
  obtain ⟨hfind, hready⟩ := Option.filter_eq_some_iff.mp ha
  have hid' : s'.runningTaskId = a := hid.trans (findTask_some hfind).1
  have hawake : AwakeId s.tasks a := ⟨next, (findTask_some hfind).1, .inl (of_decide_eq_true hready)⟩
  -- Ids that the search passes have no task that could run.
  have hskip : before.filter (fun id => AwakeId s.tasks id) = [] := by
    rw [filter_eq_nil_iff]
    intro id hmem hdecide
    obtain ⟨i, rfl, hi⟩ := of_decide_eq_true hdecide
    have hiready : (s.tasks i).state = .ready := hi.resolve_right (hidle i)
    have hfound := findTask_eq_some h.table.idInj (i := i) (by simp [hiready])
    have hnone := hbefore _ hmem
    rw [readyTask, hfound] at hnone
    simp [Option.filter, hiready] at hnone
  refine ⟨behind.filter fun id => AwakeId s.tasks id, ?_, ?_⟩
  · rw [turnOrder, hsplit, filter_append, hskip, nil_append, filter_cons, hid']
    simp [hawake]
  · rw [turnOrder, hmap, hid', PrMap.following_of_passed h.table.nodup hsplit]
    simp only [hsame.awakeId, filter_append, hskip, nil_append, filter_singleton]
    simp [hawake]

private theorem sameAwake_run {tasks : Slot → Task} {next : Slot}
    (hready : (tasks next).state = .ready) :
    SameAwake tasks (update tasks next { tasks next with state := .running }) := by
  intro i
  by_cases hi : i = next
  · subst hi
    rw [update_self]
    exact ⟨⟨fun _ => .inl hready, fun _ => .inr rfl⟩, fun _ => rfl⟩
  · rw [update_of_ne hi]
    exact ⟨Iff.rfl, fun _ => rfl⟩

private theorem turnOrder_prepare (h : Sound s) {frame now : Nat} (hframe : frame ≠ 0)
    (hsleep : ∀ i, (s.tasks i).state = .sleeping →
      tickDeadlineReached now (s.tasks i).wakeTick = false) (destroys : Slot → Bool) :
    turnOrder (prepare frame now destroys s) = turnOrder s := by
  obtain ⟨hmap, hid⟩ := prepare_tables frame now destroys s
  rw [turnOrder, turnOrder, hmap, hid]
  simp only [(sameAwake_prepare h hframe hsleep destroys).awakeId]

private theorem turn (h : Sound s) {op : Op} (hop : Undisturbed s op) :
    ∃ s', op.run s = some s' ∧ Sound s' ∧ currentState s' = some .running ∧
      ∃ rest, turnOrder s = s'.runningTaskId :: rest ∧
        turnOrder s' = rest ++ [s'.runningTaskId] := by
  cases op with
  | onInterrupt frame now activates destroys =>
    obtain ⟨hframe, hactivates, hsleep⟩ := hop
    obtain ⟨next, hn, hp, hidle, hready, heq⟩ := onInterrupt_eq h hframe now activates destroys
    have hsound := hp.dispatch hidle hready frame activates
    obtain ⟨space, stack, hd⟩ :=
      dispatch_resumes _ frame (fun _ => hactivates) (hp.context_ne_zero hready)
    refine ⟨_, rfl, ?_⟩
    rw [heq, ← turnOrder_prepare h hframe hsleep destroys]
    rw [hd] at hsound ⊢
    unfold selected at hn
    generalize prepare frame now destroys s = p at hp hidle hn hready hsound ⊢
    refine ⟨hsound, ?_, dispatch_turn hp hidle hn rfl rfl (sameAwake_run hready)⟩
    rw [currentState, hsound.findTask_running (i := next) (by simp)]
    simp
  | _ => exact hop.elim

private theorem turns (h : Sound s) {ops : List Op} (hops : Throughout Undisturbed ops s)
    (hlen : ops.length ≤ (turnOrder s).length) :
    (statesAfter ops s).map (·.runningTaskId) = (turnOrder s).take ops.length ∧
      ∀ t ∈ statesAfter ops s, currentState t = some .running := by
  induction ops generalizing s with
  | nil => exact ⟨rfl, nofun⟩
  | cons op ops ih =>
    obtain ⟨s', hrun, hs', hcurrent, rest, horder, horder'⟩ := turn h hops.1
    rw [horder, length_cons, length_cons] at hlen
    obtain ⟨hids, hstates⟩ := ih hs' (hops.2 s' hrun) (by simp [horder']; omega)
    rw [statesAfter, hrun]
    constructor
    · rw [map_cons, hids, horder, horder', length_cons, take_succ_cons,
        take_append_of_le_length (by omega)]
    · exact forall_mem_cons.mpr ⟨hcurrent, hstates⟩

private theorem turnOrder_perm (h : Sound s) (hregistered : Registered s.tasks s.prMap) :
    (turnOrder s).Perm ((awakeSlots s).map fun i => (s.tasks i).id) := by
  have hused : ∀ i ∈ awakeSlots s, (s.tasks i).state ≠ .empty := by
    intro i hi
    rcases of_decide_eq_true (mem_filter.mp hi).2 with hr | hr <;> simp [hr]
  apply (perm_ext_iff_of_nodup _ _).mpr
  · intro id
    rw [turnOrder, mem_filter, PrMap.following, mem_rotate, decide_eq_true_eq,
      mem_map]
    constructor
    · rintro ⟨-, i, hid, hi⟩
      exact ⟨i, mem_filter.mpr ⟨mem_finRange i, decide_eq_true hi⟩, hid⟩
    · rintro ⟨i, hi, rfl⟩
      have hawake := of_decide_eq_true (mem_filter.mp hi).2
      refine ⟨hregistered i ⟨hused i hi, ?_⟩, i, rfl, hawake⟩
      rcases hawake with hr | hr <;> simp [hr]
  · exact (nodup_rotate.mpr h.table.nodup).filter _
  · refine ((nodup_finRange _).filter _).map_on ?_
    intro i hi j hj hid
    exact h.table.idInj i j (hused i hi) (hused j hj) hid

/-- In every state that a run without dead sleepers reaches, as many interrupts as there are tasks
ready or running, none of which wakes a sleeper, choose each of these tasks once, in the cyclic order
of the process map. -/
theorem interrupts_fair {ops : List Op} (hops : Throughout NoDeadSleeper ops (init boot))
    (hrun : runOps ops (init boot) = some s) {interrupts : List Op}
    (hinterrupts : Throughout Undisturbed interrupts s)
    (hlen : interrupts.length = (awakeSlots s).length) :
    (statesAfter interrupts s).map (·.runningTaskId) = turnOrder s ∧
      (∀ t ∈ statesAfter interrupts s, currentState t = some .running) ∧
      (turnOrder s).Perm ((awakeSlots s).map fun i => (s.tasks i).id) ∧ (turnOrder s).Nodup := by
  obtain ⟨t, ht, hs⟩ := sound_boot.runOps ops
  rw [hrun, Option.some.injEq] at ht
  subst ht
  have hperm := turnOrder_perm hs ((registered_init boot).runOps sound_boot ops hops hrun)
  have hcount : interrupts.length = (turnOrder s).length := by
    rw [hlen, hperm.length_eq, length_map]
  obtain ⟨hids, hstates⟩ := turns hs hinterrupts hcount.le
  rw [hcount, take_length] at hids
  exact ⟨hids, hstates, hperm, (nodup_rotate.mpr hs.table.nodup).filter _⟩

private theorem stackBlock_fits (n : Fin 3) :
    0 < 65536 * (n.val + 1) ∧ 65536 * (n.val + 1) + taskStackSize < 2 ^ 64 := by
  simp only [taskStackSize]
  omega

/-- Stacks for the runs below. -/
def stackBlock (n : Fin 3) : Block :=
  ⟨65536 * (n.val + 1), (stackBlock_fits n).1, (stackBlock_fits n).2⟩

/-- Three tasks are created, and the first of them runs and sleeps for five ticks. -/
def oneOfThreeSleeps : List Op :=
  [.createTask 1 0 (fun _ => true) (some (stackBlock 0)),
    .createTask 2 0 (fun _ => true) (some (stackBlock 1)),
    .createTask 3 0 (fun _ => true) (some (stackBlock 2)),
    .onInterrupt 256 0 true (fun _ => true),
    .sleepTicks 5 0]

/-- Three interrupts without activation failures, at the first ticks. -/
def threeInterrupts : List Op :=
  [.onInterrupt 512 1 true (fun _ => true), .onInterrupt 768 2 true (fun _ => true),
    .onInterrupt 1024 3 true (fun _ => true)]

/-- The two other tasks and the kernel have their turns. -/
theorem interrupts_fair_oneSleeps : ∃ s, runOps oneOfThreeSleeps (init boot) = some s ∧
    (statesAfter threeInterrupts s).map (·.runningTaskId) = [3, 4, 1] := by
  have h : (runOps oneOfThreeSleeps (init boot)).any (fun s =>
      decide (turnOrder s = [3, 4, 1] ∧ threeInterrupts.length = (awakeSlots s).length ∧
        Throughout Undisturbed threeInterrupts s)) = true := by
    decide +kernel
  obtain ⟨s, hs, h⟩ := (Option.any_eq_true ..).mp h
  obtain ⟨horder, hlen, hcalm⟩ := of_decide_eq_true h
  refine ⟨s, hs, ?_⟩
  rw [← horder]
  exact (interrupts_fair (by decide +kernel) hs hcalm hlen).1

/-- A terminated task that sleeps before the next interrupt wakes up, but has no turn. -/
theorem dead_sleeper_unfair : ∃ s interrupts,
    runOps (userTaskDies ++ [.sleepTicks 5 0, .onInterrupt 512 5 true fun _ => true]) (init boot) =
      some s ∧ Throughout Undisturbed interrupts s ∧ interrupts.length = (awakeSlots s).length ∧
      (s.tasks 1).Awake ∧ (s.tasks 1).id = 2 ∧
      (statesAfter interrupts s).map (·.runningTaskId) = [1, 1] := by
  have h : (runOps (userTaskDies ++ [.sleepTicks 5 0, .onInterrupt 512 5 true fun _ => true])
      (init boot)).any (fun s =>
        decide (Throughout Undisturbed (threeInterrupts.take 2) s ∧
          (threeInterrupts.take 2).length = (awakeSlots s).length ∧ (s.tasks 1).Awake ∧
          (s.tasks 1).id = 2 ∧
          (statesAfter (threeInterrupts.take 2) s).map (·.runningTaskId) = [1, 1])) = true := by
    decide +kernel
  obtain ⟨s, hs, h⟩ := (Option.any_eq_true ..).mp h
  exact ⟨s, threeInterrupts.take 2, hs, of_decide_eq_true h⟩

end NasuaOS.Scheduler
