import NasuaOS.Scheduler.Table

/-!
# What the scheduler's calls do

`Sound` is the invariant after `init`. In a sound state every call but `on_interrupt` is one of the
effects listed in `Effect`; an interrupt saves the current frame, reaps, wakes and then always
finds a task to dispatch, since the kernel's task is ready by then.
-/

namespace NasuaOS.Scheduler

open Base Function List

/-- The invariant of the scheduler's state after `init`. -/
structure Sound (s : State) : Prop where
  table : Table s.tasks s.prMap s.runningTaskId
  ledger : Ledger s.tasks s.history.created s.history.released
  nextTaskId : 2 ≤ s.nextTaskId ∧ s.nextTaskId < 2 ^ 32
  initialized : s.initialized = true

/-- No task runs. -/
def Idle (s : State) : Prop := ∀ i, (s.tasks i).state ≠ .running

variable {s s' : State} {i : Slot}

/-- A round of the reaper leaves the tables or clears one slot and records what it released. -/
theorem reapSlot_cases (destroys : Slot → Bool) (s : State) (i : Slot) :
    (∃ log, reapSlot destroys s i = { s with log := log }) ∨
    ∃ resources : List Resource, resources.Nodup ∧ (s.tasks i).state = .dead ∧
      (s.tasks i).id ≠ s.runningTaskId ∧
      reapSlot destroys s i =
        { s with
          tasks := update s.tasks i {}
          history := { s.history with
            released := s.history.released ++
              resources.map fun r => ⟨r, s.tasks i, s.runningTaskId⟩ } } := by
  dsimp only [reapSlot]
  split
  · exact .inl ⟨s.log, rfl⟩
  · next hdead =>
    rw [not_or, not_not] at hdead
    split
    · split
      · refine .inr ⟨[.addressSpace, .stack], by decide, hdead.1, hdead.2, ?_⟩
        simp only [State.release, State.setTask, append_assoc, map_cons, map_nil,
          cons_append, nil_append]
      · exact .inl ⟨_, rfl⟩
    · exact .inr ⟨[.stack], by decide, hdead.1, hdead.2, rfl⟩

/-- A round of the wake-up leaves the state or makes one sleeper ready. -/
theorem wakeSlot_cases (now : Nat) (s : State) (i : Slot) :
    wakeSlot now s i = s ∨
    (s.tasks i).state = .sleeping ∧
      wakeSlot now s i = s.setTask i { s.tasks i with state := .ready } := by
  unfold wakeSlot
  split
  · next h => exact .inr ⟨h.1, rfl⟩
  · exact .inl rfl

/-- State of the current task, if there is one. -/
def currentState (s : State) : Option TaskState :=
  (findTask s.tasks s.runningTaskId).map fun i => (s.tasks i).state

/-- An interrupt keeps its frame for a current task that runs, and for no other. -/
theorem saveCurrent_cases (frame : Nat) (s : State) :
    (∃ i, findTask s.tasks s.runningTaskId = some i ∧ (s.tasks i).state = .running ∧
      saveCurrent frame s =
        s.setTask i { s.tasks i with context := frame, state := .ready }) ∨
    currentState s ≠ some .running ∧
      ∃ activeSpace, saveCurrent frame s = { s with activeSpace := activeSpace } := by
  unfold saveCurrent currentState
  cases hc : findTask s.tasks s.runningTaskId with
  | none => exact .inr ⟨by simp, s.activeSpace, rfl⟩
  | some i =>
    dsimp only
    split
    · next hr => exact .inl ⟨i, rfl, hr, rfl⟩
    · next hr =>
      right
      refine ⟨by simpa using hr, ?_⟩
      split
      · exact ⟨none, rfl⟩
      · exact ⟨s.activeSpace, rfl⟩

namespace Sound

/-- Reaping keeps the invariant. -/
theorem reapDeadTasks (h : Sound s) (destroys : Slot → Bool) :
    Sound (reapDeadTasks destroys s) := by
  apply foldl_invariant _ _ _ h
  intro t i hi ht
  rcases reapSlot_cases destroys t i with ⟨log, heq⟩ | ⟨resources, hnd, hdead, hcur, heq⟩
  · rw [heq]
    exact ⟨ht.table, ht.ledger, ht.nextTaskId, ht.initialized⟩
  · rw [heq]
    exact ⟨ht.table.clear (mem_taskSlots.mp hi) hdead, ht.ledger.clear hdead hcur hnd,
      ht.nextTaskId, ht.initialized⟩

private theorem restate (h : Sound s) (hi : i ≠ 0) (hused : (s.tasks i).state ≠ .empty) {state : TaskState}
    (hstate : state.Live) (hrun : state ≠ .running) (wakeTick : Nat) :
    Sound (s.setTask i { s.tasks i with state := state, wakeTick := wakeTick }) := by
  refine ⟨?_, h.ledger.restate hused rfl, h.nextTaskId, h.initialized⟩
  apply h.table.restate { s.tasks i with state := state, wakeTick := wakeTick } hused rfl rfl
    (fun h0 => absurd h0 hi) h.table.kernelMapped (Sublist.refl _) (fun _ => hstate)
    (fun hr => absurd hr hrun)
  · intro j _ hj
    exact h.table.running j hj
  · intro hc
    exact absurd (h.table.saved i hused hc).1 hi

private theorem wakeSleepingTasks (h : Sound s) (now : Nat) : Sound (wakeSleepingTasks now s) := by
  apply foldl_invariant _ _ _ h
  intro t i hi ht
  rcases wakeSlot_cases now t i with heq | ⟨hs, heq⟩
  · rwa [heq]
  · rw [heq]
    exact ht.restate (mem_taskSlots.mp hi) (by simp [hs]) TaskState.live_ready (by decide)
      (t.tasks i).wakeTick

private theorem kill (h : Sound s) (hi : i ≠ 0) (hused : (s.tasks i).state ≠ .empty) :
    Sound (kill i s) := by
  refine ⟨?_, h.ledger.restate hused rfl, h.nextTaskId, h.initialized⟩
  have hid : (s.tasks i).id ≠ 1 := fun h1 => hi (h.table.eq_zero hused h1)
  apply h.table.restate { s.tasks i with state := .dead } hused rfl rfl (fun h0 => absurd h0 hi)
  · exact (PrMap.mem_remove_iff h.table.nodup _ _).mpr ⟨hid.symm, h.table.kernelMapped⟩
  · exact erase_sublist
  · intro hmem
    exact absurd rfl ((PrMap.mem_remove_iff h.table.nodup _ _).mp hmem).1
  · intro hr
    cases hr
  · intro j _ hj
    exact h.table.running j hj
  · intro hc
    exact absurd (h.table.saved i hused hc).1 hi

/-- A task that runs is the current one. -/
theorem findTask_running (h : Sound s) (hr : (s.tasks i).state = .running) :
    findTask s.tasks s.runningTaskId = some i := by
  rw [← h.table.running i hr]
  exact findTask_eq_some h.table.idInj (by simp [hr])

/-- Saving the frame of the current task keeps the invariant, and then no task runs. -/
theorem saveCurrent (h : Sound s) {frame : Nat} (hf : frame ≠ 0) :
    Sound (saveCurrent frame s) ∧ Idle (saveCurrent frame s) := by
  rcases saveCurrent_cases frame s with ⟨i, hi, hr, heq⟩ | ⟨hr, space, heq⟩
  · have hused := (findTask_some hi).2
    rw [heq]
    refine ⟨⟨?_, h.ledger.restate hused rfl, h.nextTaskId, h.initialized⟩, ?_⟩
    · apply h.table.restate { s.tasks i with context := frame, state := .ready } hused rfl rfl
        (fun _ => .inl rfl) h.table.kernelMapped (Sublist.refl _)
        (fun _ => TaskState.live_ready) (fun hr => by cases hr)
      · intro j _ hj
        exact h.table.running j hj
      · intro h0
        exact absurd h0 hf
    · apply (forall_update_iff s.tasks fun _ t => t.state ≠ .running).mpr
      refine ⟨by simp, fun j hji hj => ?_⟩
      have hij := h.findTask_running hj
      rw [hi, Option.some.injEq] at hij
      exact hji hij.symm
  · rw [heq]
    refine ⟨⟨h.table, h.ledger, h.nextTaskId, h.initialized⟩, ?_⟩
    intro j hj
    apply hr
    rw [currentState, h.findTask_running hj, Option.map_some]
    exact congrArg some hj

private theorem idle_reapDeadTasks (h : Idle s) (destroys : Slot → Bool) :
    Idle (Scheduler.reapDeadTasks destroys s) := by
  apply foldl_invariant _ _ _ h
  intro t i _ ht
  rcases reapSlot_cases destroys t i with ⟨log, heq⟩ | ⟨resources, -, -, -, heq⟩
  · rw [heq]
    exact ht
  · rw [heq]
    apply (forall_update_iff t.tasks fun _ t => t.state ≠ .running).mpr
    exact ⟨by simp, fun j _ => ht j⟩

private theorem idle_wakeSleepingTasks (h : Idle s) (now : Nat) :
    Idle (Scheduler.wakeSleepingTasks now s) := by
  apply foldl_invariant _ _ _ h
  intro t i _ ht
  rcases wakeSlot_cases now t i with heq | ⟨-, heq⟩
  · rwa [heq]
  · rw [heq]
    apply (forall_update_iff t.tasks fun _ t => t.state ≠ .running).mpr
    exact ⟨by simp, fun j _ => ht j⟩

/-- The state in which an interrupt chooses is sound and no task runs in it. -/
theorem prepare (h : Sound s) {frame : Nat} (hf : frame ≠ 0) (now : Nat) (destroys : Slot → Bool) :
    Sound (prepare frame now destroys s) ∧ Idle (Scheduler.prepare frame now destroys s) := by
  have hn : Sound (noteFrame frame s) := ⟨h.table, h.ledger, h.nextTaskId, h.initialized⟩
  have hs := hn.saveCurrent hf
  exact ⟨(hs.1.reapDeadTasks destroys).wakeSleepingTasks now,
    idle_wakeSleepingTasks (idle_reapDeadTasks hs.2 destroys) now⟩

private theorem exists_next (h : Sound s) (hidle : Idle s) :
    ∃ next, nextReadyTask s s.runningTaskId = some next := by
  have hready : (s.tasks 0).state = .ready := by
    rcases h.table.kernelState with hr | hr
    · exact hr
    · exact absurd hr (hidle 0)
  cases hn : nextReadyTask s s.runningTaskId with
  | some next => exact ⟨next, rfl⟩
  | none =>
    obtain ⟨k, hk, heq⟩ :=
      PrMap.exists_iterate_next h.table.nodup s.runningTaskId h.table.kernelMapped
    have hfind : findTask s.tasks 1 = some 0 := by
      rw [← h.table.kernelId]
      exact findTask_eq_some h.table.idInj (by simp [hready])
    rw [← heq] at hfind
    exact absurd hready (searchReady_none hn k hk 0 hfind)

/-- The task chosen is ready, registered and found by its id. -/
theorem next_ready (h : Sound s) {currentId : Nat} {next : Slot}
    (hn : nextReadyTask s currentId = some next) :
    (s.tasks next).state = .ready ∧ (s.tasks next).id ∈ s.prMap ∧
      findTask s.tasks (s.tasks next).id = some next :=
  searchReady_some (ne_nil_of_mem h.table.kernelMapped) hn

private theorem choose (h : Sound s) (hidle : Idle s) {next : Slot}
    (hready : (s.tasks next).state = .ready) :
    Sound ({ s with runningTaskId := (s.tasks next).id }.setTask next
      { s.tasks next with state := .running }) := by
  have hused : (s.tasks next).state ≠ .empty := by simp [hready]
  refine ⟨?_, h.ledger.restate hused rfl, h.nextTaskId, h.initialized⟩
  apply h.table.restate { s.tasks next with state := .running } hused rfl rfl (fun _ => .inr rfl)
    h.table.kernelMapped (Sublist.refl _) (fun _ => TaskState.live_running) (fun _ => rfl)
  · intro j _ hj
    exact absurd hj (hidle j)
  · intro hc
    have hs := (h.table.saved next hused hc).2
    rw [hready] at hs
    cases hs

end Sound

/-- The task an interrupt chooses. -/
def selected (frame now : Nat) (destroys : Slot → Bool) (s : State) : Option Slot :=
  nextReadyTask (prepare frame now destroys s) (prepare frame now destroys s).runningTaskId

/-- An interrupt dispatches the task that it chooses. -/
theorem onInterrupt_eq (h : Sound s) {frame : Nat} (hf : frame ≠ 0) (now : Nat) (activates : Bool)
    (destroys : Slot → Bool) :
    ∃ next, selected frame now destroys s = some next ∧ Sound (prepare frame now destroys s) ∧
      Idle (prepare frame now destroys s) ∧
      ((prepare frame now destroys s).tasks next).state = .ready ∧
      onInterrupt frame now activates destroys s =
        dispatch next frame activates (prepare frame now destroys s) := by
  obtain ⟨hp, hidle⟩ := h.prepare hf now destroys
  obtain ⟨next, hn⟩ := hp.exists_next hidle
  refine ⟨next, hn, hp, hidle, (hp.next_ready hn).1, ?_⟩
  have hguard : ¬(s.initialized = false ∨ frame = 0) := by simp [h.initialized, hf]
  rw [onInterrupt, if_neg hguard]
  dsimp only
  rw [hn]

variable {next : Slot}

/-- A task that is dispatched gets its saved frame. -/
theorem dispatch_resumes (s : State) (frame : Nat) {activates : Bool}
    (hok : (s.tasks next).userMode = true → activates = true) (hc : (s.tasks next).context ≠ 0) :
    ∃ activeSpace kernelStack,
      dispatch next frame activates s = ((s.tasks next).context, { s with
          tasks := update s.tasks next { s.tasks next with state := .running }
          runningTaskId := (s.tasks next).id
          activeSpace := activeSpace
          kernelStack := kernelStack
          history := { s.history with executing := (s.tasks next).serial } }) := by
  have hguard : ¬((s.tasks next).userMode = true ∧ activates = false) := by
    rintro ⟨hu, ha⟩
    rw [hok hu] at ha
    cases ha
  dsimp only [dispatch]
  rw [if_neg hguard, if_pos hc]
  exact ⟨_, _, rfl⟩

/-- A task whose address space cannot be activated dies, and the interrupted frame goes on. -/
theorem dispatch_fails (s : State) (frame : Nat) (hu : (s.tasks next).userMode = true) :
    ∃ log finished,
      dispatch next frame false s = (frame, { s with
          tasks := update s.tasks next { s.tasks next with state := .dead }
          prMap := PrMap.remove s.prMap (s.tasks next).id
          runningTaskId := (s.tasks next).id
          activeSpace := none
          log := log
          finished := finished }) := by
  by_cases hp : (s.tasks next).processId ≠ 0
  · simp only [dispatch, hu, and_self, if_true, kill, finishProcess, State.setTask, State.logError,
      update_self, update_idem, if_pos hp]
    exact ⟨_, _, rfl⟩
  · simp only [dispatch, hu, and_self, if_true, kill, finishProcess, State.setTask, State.logError,
      update_self, update_idem, if_neg hp]
    exact ⟨_, _, rfl⟩

/-- A task that is ready has a saved frame. -/
theorem Sound.context_ne_zero (h : Sound s) (hready : (s.tasks i).state = .ready) :
    (s.tasks i).context ≠ 0 := by
  intro hc
  have hs := (h.table.saved i (by simp [hready]) hc).2
  rw [hready] at hs
  cases hs

/-- A ready task is resumed, or it dies because its address space cannot be activated. -/
@[elab_as_elim] theorem Sound.dispatch_cases {motive : State → Prop} (h : Sound s)
    (hready : (s.tasks next).state = .ready) (frame : Nat) (activates : Bool)
    (resumed : ∀ space stack, motive { s with
      tasks := update s.tasks next { s.tasks next with state := .running }
      runningTaskId := (s.tasks next).id
      activeSpace := space
      kernelStack := stack
      history := { s.history with executing := (s.tasks next).serial } })
    (failed : (s.tasks next).userMode = true → ∀ log finished, motive { s with
      tasks := update s.tasks next { s.tasks next with state := .dead }
      prMap := PrMap.remove s.prMap (s.tasks next).id
      runningTaskId := (s.tasks next).id
      activeSpace := none
      log := log
      finished := finished }) : motive (Scheduler.dispatch next frame activates s).2 := by
  by_cases hok : (s.tasks next).userMode = true → activates = true
  · obtain ⟨space, stack, hd⟩ := dispatch_resumes s frame hok (h.context_ne_zero hready)
    rw [hd]
    exact resumed space stack
  · rw [Classical.not_imp, Bool.not_eq_true] at hok
    obtain ⟨log, finished, hd⟩ := dispatch_fails s frame hok.1
    rw [hok.2, hd]
    exact failed hok.1 log finished

/-- Dispatching keeps the invariant, whether or not the address space can be activated. -/
theorem Sound.dispatch (h : Sound s) (hidle : Idle s) (hready : (s.tasks next).state = .ready)
    (frame : Nat) (activates : Bool) : Sound (dispatch next frame activates s).2 := by
  have hchosen := h.choose hidle hready
  refine h.dispatch_cases hready frame activates ?_ ?_
  · exact fun _ _ => ⟨hchosen.table, hchosen.ledger, hchosen.nextTaskId, hchosen.initialized⟩
  · intro huser log finished
    have h0 : next ≠ 0 := by
      rintro rfl
      rw [h.table.kernelMode] at huser
      cases huser
    have hk := hchosen.kill (i := next) h0 (by simp [State.setTask])
    have ht := hk.table
    have hl := hk.ledger
    simp only [Scheduler.kill, State.setTask, update_self, update_idem] at ht hl
    exact ⟨ht, hl, hk.nextTaskId, hk.initialized⟩

/-- The state after a task was put into an empty slot. -/
def fillSlot (slot : Slot) (task : Task) (next : Nat) (s : State) : State :=
  { s with
    tasks := update s.tasks slot task
    prMap := s.prMap ++ [task.id]
    nextTaskId := next
    history := { s.history with
      created := s.history.created + 1
      frames := (s.history.created, task.context) :: s.history.frames } }

/-- A task that may be put into a slot: ready, with a frame, under a new id and number. -/
structure Fresh (s : State) (slot : Slot) (task : Task) : Prop where
  nonzero : slot ≠ 0
  empty : (s.tasks slot).state = .empty
  unused : findTask s.tasks task.id = none
  idNonzero : task.id ≠ 0
  ready : task.state = .ready
  context : task.context ≠ 0
  serial : task.serial = s.history.created

/-- What an attempt to enter a task does to the state after reaping. -/
inductive Enrolled (s : State) : State → Prop
  | refused (log : List String) : Enrolled s { s with log := log }
  | filled {slot : Slot} {task : Task} {next : Nat} (fresh : Fresh s slot task)
      (range : 2 ≤ next ∧ next < 2 ^ 32) : Enrolled s (fillSlot slot task next s)

/-- What a call other than `on_interrupt` does. -/
inductive Effect (op : Op) (s : State) : State → Prop
  | quiet (log : List String) : Effect op s { s with log := log }
  | created (destroys : Slot → Bool) {s' : State}
      (enrolled : Enrolled (reapDeadTasks destroys s) s') : Effect op s s'
  | slept {ticks now : Nat} (call : op = .sleepTicks ticks now) (positive : ticks ≠ 0) {i : Slot}
      (current : findTask s.tasks s.runningTaskId = some i) (nonzero : i ≠ 0) :
      Effect op s (s.setTask i { s.tasks i with
        state := .sleeping, wakeTick := (now + ticks) % 2 ^ 64 })
  | killed {i : Slot} (current : findTask s.tasks s.runningTaskId = some i) (nonzero : i ≠ 0)
      (finished : List (Nat × Int)) : Effect op s (kill i { s with finished := finished })
  | init (call : op = .init) : Effect op s (init s)

/-- What a call does in a sound state: it has an effect, and only an interrupt without a frame is
among these calls, or it is an interrupt that dispatches the task it chooses. -/
inductive Turn (s : State) : Op → State → Prop
  | effect {op : Op} {s' : State} (h : Effect op s s')
      (hop : ∀ {frame now activates destroys}, op = .onInterrupt frame now activates destroys →
        frame = 0) : Turn s op s'
  | interrupt {frame now : Nat} {activates : Bool} {destroys : Slot → Bool} {next : Slot}
      (hf : frame ≠ 0) (hn : selected frame now destroys s = some next)
      (hp : Sound (prepare frame now destroys s)) (hidle : Idle (prepare frame now destroys s))
      (hready : ((prepare frame now destroys s).tasks next).state = .ready) :
      Turn s (.onInterrupt frame now activates destroys)
        (dispatch next frame activates (prepare frame now destroys s)).2

private theorem enroll_enrolled (h : Sound s) (noStack unregistered : String)
    (fill : Block → Task → Task) (hfill : ∀ stack task, (fill stack task).context ≠ 0)
    (kmalloc : Option Block) :
    ∃ id s', enroll noStack unregistered fill kmalloc s = some (id, s') ∧ Enrolled s s' ∧
      (id = 0 → ((freeSlot s.tasks).bind fun _ => kmalloc) = none) := by
  unfold enroll
  cases hslot : freeSlot s.tasks with
  | none => exact ⟨_, _, rfl, .refused _, fun _ => rfl⟩
  | some slot =>
    cases kmalloc with
    | none => exact ⟨_, _, rfl, .refused _, fun _ => rfl⟩
    | some stack =>
      obtain ⟨h0, hempty⟩ := freeSlot_some hslot
      cases htake : takeTaskId s.tasks (maxTasks + 1) s.nextTaskId with
      | none => exact absurd htake (takeTaskId_ends s.tasks h.nextTaskId)
      | some taken =>
        obtain ⟨id, next⟩ := taken
        obtain ⟨hid, hnew, hrange⟩ := takeTaskId_some h.nextTaskId htake
        dsimp only
        rw [h.table.add_eq_some hempty hid hnew]
        exact ⟨_, _, rfl,
          .filled ⟨h0, hempty, hnew, hid, rfl, hfill stack (s.tasks slot), rfl⟩ hrange,
          fun hzero => absurd hzero hid⟩

private theorem kernelFrame_ne_zero (stack : Block) :
    (stack.address + taskStackSize) / 16 * 16 - 8 - 160 ≠ 0 := by
  have := stack.nonnull
  simp only [taskStackSize]
  omega

private theorem userFrame_ne_zero (stack : Block) :
    (stack.address + taskStackSize) / 16 * 16 - 176 ≠ 0 := by
  have := stack.nonnull
  simp only [taskStackSize]
  omega

private theorem Op.effect (h : Sound s) (op : Op) (hop : ∀ {frame now activates destroys},
      op = .onInterrupt frame now activates destroys → frame = 0) :
    ∃ s', op.run s = some s' ∧ Effect op s s' := by
  have hkernel : ∀ i, findTask s.tasks s.runningTaskId = some i → (s.tasks i).id ≠ 1 → i ≠ 0 := by
    rintro i - hid rfl
    exact hid h.table.kernelId
  cases op with
  | init => exact ⟨_, rfl, .init rfl⟩
  | createTask entry argument destroys kmalloc =>
    dsimp only [Op.run, Scheduler.createTask]
    split
    · exact ⟨_, rfl, .quiet _⟩
    · obtain ⟨id, s', heq, hen, -⟩ := enroll_enrolled (h.reapDeadTasks destroys) _ _
        (fun stack slot => { slot with entry := entry, argument := argument, context := _ })
        (fun stack _ => kernelFrame_ne_zero stack) kmalloc
      rw [heq]
      exact ⟨s', rfl, .created destroys hen⟩
  | createUserTask addressSpace userStackPointer processId executable writable destroys kmalloc =>
    dsimp only [Op.run, Scheduler.createUserTask]
    cases addressSpace with
    | none => exact ⟨_, rfl, .quiet _⟩
    | some space =>
      dsimp only
      split
      · exact ⟨_, rfl, .quiet _⟩
      · obtain ⟨id, s', heq, hen, -⟩ := enroll_enrolled (h.reapDeadTasks destroys) _ _
          (fun stack slot => { slot with
            userMode := true, processId := processId, addressSpace := space, context := _ })
          (fun stack _ => userFrame_ne_zero stack) kmalloc
        rw [heq]
        exact ⟨s', rfl, .created destroys hen⟩
  | sleepTicks ticks now =>
    refine ⟨_, rfl, ?_⟩
    unfold Scheduler.sleepTicks
    split
    · exact .quiet s.log
    · next hticks =>
      split
      · exact .quiet s.log
      · next i hi =>
        split
        · exact .quiet s.log
        · next hid => exact .slept rfl hticks hi (hkernel i hi hid)
  | exitCurrent =>
    refine ⟨_, rfl, ?_⟩
    unfold Scheduler.exitCurrent
    split
    · exact .quiet s.log
    · next i hi =>
      split
      · exact .quiet s.log
      · next hid => exact .killed hi (hkernel i hi hid) s.finished
  | terminateCurrentUserTask exitCode =>
    refine ⟨_, rfl, ?_⟩
    unfold Scheduler.terminateCurrentUserTask
    split
    · exact .quiet s.log
    · next i hi =>
      split
      · next hmode =>
        have h0 : i ≠ 0 := by
          rintro rfl
          rw [h.table.kernelMode] at hmode
          cases hmode.1
        unfold finishProcess
        split
        · exact .killed hi h0 _
        · exact .killed hi h0 s.finished
      · exact .quiet s.log
  | onInterrupt frame now activates destroys =>
    refine ⟨_, rfl, ?_⟩
    rw [Scheduler.onInterrupt, if_pos (.inr (hop rfl))]
    exact .quiet s.log

private theorem Sound.turn (h : Sound s) (op : Op) : ∃ s', op.run s = some s' ∧ Turn s op s' := by
  by_cases hint : ∃ frame now activates destroys,
      op = .onInterrupt frame now activates destroys ∧ frame ≠ 0
  · obtain ⟨frame, now, activates, destroys, rfl, hf⟩ := hint
    obtain ⟨next, hn, hp, hidle, hready, heq⟩ := onInterrupt_eq h hf now activates destroys
    refine ⟨_, rfl, ?_⟩
    rw [heq]
    exact .interrupt hf hn hp hidle hready
  · have hop {frame now activates destroys}
        (heq : op = .onInterrupt frame now activates destroys) : frame = 0 := by
      by_contra hf
      exact hint ⟨_, _, _, _, heq, hf⟩
    obtain ⟨s', hrun, heffect⟩ := op.effect h hop
    exact ⟨s', hrun, .effect heffect hop⟩

/-- What a call that returned did. -/
theorem Sound.turn_of_run (h : Sound s) {op : Op} (hrun : op.run s = some s') : Turn s op s' := by
  obtain ⟨t, ht, hturn⟩ := h.turn op
  rw [hrun, Option.some.injEq] at ht
  rwa [ht]

/-- After `init` the invariant holds, whatever was there before. -/
theorem sound_init (hlt : ∀ r ∈ s.history.released, r.task.serial < s.history.created)
    (honce : (s.history.released.map fun r => (r.resource, r.task.serial)).Nodup)
    (hdead : ∀ r ∈ s.history.released, r.task.state = .dead ∧ r.task.id ≠ r.runningTaskId) :
    Sound (init s) := by
  have hused : ∀ j, ((init s).tasks j).state ≠ .empty → j = 0 := by
    intro j hj
    by_contra h0
    change (update (fun _ => ({} : Task)) 0 _ j).state ≠ .empty at hj
    rw [update_of_ne h0] at hj
    exact hj rfl
  constructor
  case table =>
    constructor
    case kernelId => rfl
    case kernelMode => rfl
    case kernelState => exact .inr rfl
    case kernelMapped => exact mem_singleton_self 1
    case idNonzero =>
      intro j hj
      rw [hused j hj]
      exact one_ne_zero
    case idInj =>
      intro j k hj hk _
      rw [hused j hj, hused k hk]
    case nodup => exact nodup_singleton 1
    case mapped =>
      intro a ha
      exact ⟨0, (mem_singleton.mp ha).symm, TaskState.live_running⟩
    case running =>
      intro j hj
      rw [hused j (by simp [hj])]
      rfl
    case saved =>
      intro j hj _
      rw [hused j hj]
      exact ⟨rfl, rfl⟩
  case ledger =>
    constructor
    case serialInj =>
      intro j k hj hk _
      rw [hused j hj, hused k hk]
    case serialLt =>
      intro j hj
      rw [hused j hj]
      exact Nat.lt_succ_self _
    case unreleased =>
      intro j hj r hr
      rw [hused j hj]
      exact (hlt r hr).ne
    case releasedLt =>
      intro r hr
      exact Nat.lt_succ_of_lt (hlt r hr)
    case once => exact honce
    case dead => exact hdead
  case nextTaskId => exact ⟨le_refl 2, show 2 < 2 ^ 32 by decide⟩
  case initialized => rfl

private theorem Sound.enrolled (h : Sound s) (he : Enrolled s s') : Sound s' := by
  cases he with
  | refused log => exact ⟨h.table, h.ledger, h.nextTaskId, h.initialized⟩
  | filled fresh range =>
    exact ⟨h.table.fill fresh.nonzero fresh.empty fresh.unused fresh.idNonzero fresh.ready
      fresh.context, h.ledger.fill fresh.serial, range, h.initialized⟩

/-- Every effect keeps the invariant. -/
theorem Sound.effect (h : Sound s) {op : Op} (he : Effect op s s') : Sound s' := by
  cases he with
  | quiet log => exact ⟨h.table, h.ledger, h.nextTaskId, h.initialized⟩
  | created destroys enrolled => exact (h.reapDeadTasks destroys).enrolled enrolled
  | slept call positive current nonzero =>
    exact h.restate nonzero (findTask_some current).2 TaskState.live_sleeping (by decide) _
  | killed current nonzero finished =>
    have hf : Sound { s with finished := finished } :=
      ⟨h.table, h.ledger, h.nextTaskId, h.initialized⟩
    exact hf.kill nonzero (findTask_some current).2
  | init => exact sound_init h.ledger.releasedLt h.ledger.once h.ledger.dead

/-- Every call returns in a sound state, and the state stays sound. -/
theorem Sound.run (h : Sound s) (op : Op) : ∃ s', op.run s = some s' ∧ Sound s' := by
  obtain ⟨s', hrun, hturn⟩ := h.turn op
  refine ⟨s', hrun, ?_⟩
  cases hturn with
  | effect he => exact h.effect he
  | interrupt _ _ hp hidle hready => exact hp.dispatch hidle hready _ _

end NasuaOS.Scheduler
