import NasuaOS.Scheduler.Coherence

/-!
# Creation of tasks that fails

`src/kernel_64bit/src/system/scheduler/functions/scheduler.cpp:165–335`. A creation takes a slot, a
stack, an id and a place in the process map, in this order; when one of them is not to be had, what
was taken before is given back. A slot that is given back is clear, as every empty slot is.
-/

namespace NasuaOS.Scheduler

open Base

variable {s s' : State} {i : Slot}

/-- Empty slots are clear. -/
def Cleared (s : State) : Prop := ∀ i, (s.tasks i).state = .empty → s.tasks i = {}

namespace Cleared

private theorem of_slots (h : Cleared s)
    (hslots : ∀ i, s'.tasks i = {} ∨ s'.tasks i = s.tasks i ∨ (s'.tasks i).state ≠ .empty) :
    Cleared s' := by
  intro i hi
  rcases hslots i with heq | heq | hne
  · exact heq
  · rw [heq] at hi ⊢
    exact h i hi
  · exact absurd hi hne

private theorem update (h : Cleared s) {task : Task} (htask : task.state ≠ .empty) {t : State}
    (ht : t.tasks = Function.update s.tasks i task) : Cleared t := by
  apply h.of_slots
  intro j
  rw [ht]
  by_cases hj : j = i
  · subst hj
    rw [Function.update_self]
    exact .inr (.inr htask)
  · rw [Function.update_of_ne hj]
    exact .inr (.inl rfl)

private theorem reaped (h : Cleared s) (hr : Reaped s s') : Cleared s' :=
  h.of_slots fun i => (hr.tasks i).elim (fun heq => .inr (.inl heq)) fun heq => .inl heq.1

private theorem init (s : State) : Cleared (init s) := by
  intro i hi
  by_cases h0 : i = 0
  · subst h0
    cases hi
  · change Function.update (fun _ => ({} : Task)) 0 _ i = {}
    rw [Function.update_of_ne h0]

private theorem effect (h : Cleared s) {op : Op} (he : Effect op s s') : Cleared s' := by
  cases he with
  | quiet => exact h
  | created destroys enrolled =>
    have hr := h.reaped (reapDeadTasks_reaped destroys s)
    generalize reapDeadTasks destroys s = r at enrolled hr
    cases enrolled with
    | refused => exact hr
    | filled fresh => exact hr.update (by rw [fresh.ready]; decide) rfl
  | slept | killed => exact h.update (by simp) rfl
  | init => exact .init s

private theorem prepare (h : Cleared s) (hs : Sound s) {frame : Nat} (hframe : frame ≠ 0) (now : Nat)
    (destroys : Slot → Bool) : Cleared (prepare frame now destroys s) := by
  apply h.of_slots
  intro i
  have hprepared := prepare_task hs hframe now destroys i
  generalize (Scheduler.prepare frame now destroys s).tasks i = task at hprepared ⊢
  cases hprepared with
  | same => exact .inr (.inl rfl)
  | saved | woken => exact .inr (.inr (by simp))
  | reaped => exact .inl rfl

private theorem dispatch (h : Cleared s) (hs : Sound s) {next : Slot}
    (hready : (s.tasks next).state = .ready) (frame : Nat) (activates : Bool) :
    Cleared (dispatch next frame activates s).2 := by
  refine hs.dispatch_cases hready frame activates ?_ ?_
  · exact fun _ _ => h.update (by simp) rfl
  · exact fun _ _ _ => h.update (by simp) rfl

private theorem run (h : Cleared s) (hs : Sound s) {op : Op} (hrun : op.run s = some s') :
    Sound s' ∧ Cleared s' := by
  cases hs.turn_of_run hrun with
  | effect he => exact ⟨hs.effect he, h.effect he⟩
  | interrupt hf _ hp hidle hready =>
    exact ⟨hp.dispatch hidle hready _ _, (h.prepare hs hf _ _).dispatch hp hready _ _⟩

end Cleared

/-- The scheduler before `init`. -/
structure Unstarted (s : State) : Prop where
  tasks : s.tasks = fun _ => {}
  initialized : s.initialized = false
  released : s.history.released = []

private theorem Unstarted.findTask (h : Unstarted s) (id : Nat) : findTask s.tasks id = none := by
  rw [h.tasks]
  simp [Scheduler.findTask]

private theorem Unstarted.run (h : Unstarted s) {op : Op} (hrun : op.run s = some s') :
    Sound s' ∧ Cleared s' ∨ Unstarted s' := by
  cases op with
  | init =>
    cases hrun
    refine .inl ⟨sound_init ?_ ?_ ?_, .init s⟩ <;> simp [h.released]
  | createTask entry argument destroys kmalloc =>
    obtain ⟨r, hcall, rfl⟩ := Option.map_eq_some_iff.mp hrun
    rw [createTask, if_pos (.inl h.initialized)] at hcall
    cases hcall
    exact .inr ⟨h.tasks, h.initialized, h.released⟩
  | createUserTask addressSpace userStackPointer processId executable writable destroys kmalloc =>
    obtain ⟨r, hcall, rfl⟩ := Option.map_eq_some_iff.mp hrun
    unfold createUserTask at hcall
    split at hcall
    · cases hcall
      exact .inr ⟨h.tasks, h.initialized, h.released⟩
    · rw [if_pos (.inl h.initialized)] at hcall
      cases hcall
      exact .inr ⟨h.tasks, h.initialized, h.released⟩
  | sleepTicks ticks now =>
    cases hrun
    rw [sleepTicks, h.findTask, ite_self]
    exact .inr h
  | exitCurrent =>
    cases hrun
    rw [exitCurrent, h.findTask]
    exact .inr h
  | terminateCurrentUserTask exitCode =>
    cases hrun
    rw [terminateCurrentUserTask, h.findTask]
    exact .inr h
  | onInterrupt frame now activates destroys =>
    cases hrun
    rw [onInterrupt, if_pos (.inl h.initialized)]
    exact .inr h

private theorem runOps_boot {ops : List Op} (hrun : runOps ops boot = some s) :
    Sound s ∧ Cleared s ∨ Unstarted s := by
  suffices hall : ∀ t, (Sound t ∧ Cleared t ∨ Unstarted t) → runOps ops t = some s →
      (Sound s ∧ Cleared s ∨ Unstarted s) from hall boot (.inr ⟨rfl, rfl, rfl⟩) hrun
  clear hrun
  induction ops with
  | nil =>
    rintro t ht ⟨⟩
    exact ht
  | cons op rest ih =>
    intro t ht hrun
    obtain ⟨t', hop, hrest⟩ := Option.bind_eq_some_iff.mp hrun
    refine ih t' ?_ hrest
    rcases ht with ⟨hsound, hcleared⟩ | hunstarted
    · exact .inl (hcleared.run hsound hop)
    · exact hunstarted.run hop

private theorem runOps_cleared {ops : List Op} (hrun : runOps ops boot = some s) : Cleared s := by
  rcases runOps_boot hrun with h | h
  · exact h.2
  · intro i _
    rw [h.tasks]

/-- A call that returned 0: slots are as they were or held a dead task and are clear, the process map
is as it was, and a stack that was taken is released. -/
structure Refused (destroys : Slot → Bool) (taken : Option Block) (s s' : State) : Prop where
  tasks : ∀ i, s'.tasks i = s.tasks i ∨ (s'.tasks i = {} ∧ (s.tasks i).state = .dead)
  prMap : s'.prMap = s.prMap
  stack : ∀ block, taken = some block → ∃ task : Task, task.stack = block.address ∧
    s'.history.released =
      (reapDeadTasks destroys s).history.released ++ [⟨.stack, task, s.runningTaskId⟩]

/-- The stack that `create_task` takes, if it gets so far. -/
def createTaskStack (entry : Nat) (destroys : Slot → Bool) (kmalloc : Option Block) (s : State) :
    Option Block :=
  if s.initialized = false ∨ entry = 0 then none
  else (freeSlot (reapDeadTasks destroys s).tasks).bind fun _ => kmalloc

/-- The stack that `create_user_task` takes, if it gets so far. -/
def createUserTaskStack (addressSpace : Option UserAddressSpace) (userStackPointer : Nat)
    (executable writable : Bool) (destroys : Slot → Bool) (kmalloc : Option Block) (s : State) :
    Option Block :=
  addressSpace.bind fun space =>
    if s.initialized = false ∨ space.valid = false ∨ executable = false ∨ userStackPointer < 8 ∨
        writable = false then none
    else (freeSlot (reapDeadTasks destroys s).tasks).bind fun _ => kmalloc

variable {fill : Block → Task → Task}

private theorem enroll_zero {noStack unregistered : String} {kmalloc : Option Block}
    (hcleared : Cleared s) (h : enroll noStack unregistered fill kmalloc s = some (0, s')) :
    s'.tasks = s.tasks ∧ s'.prMap = s.prMap ∧
      ∀ block, ((freeSlot s.tasks).bind fun _ => kmalloc) = some block →
        ∃ task : Task, task.stack = block.address ∧
          s'.history.released = s.history.released ++ [⟨.stack, task, s.runningTaskId⟩] := by
  unfold enroll at h
  cases hslot : freeSlot s.tasks with
  | none =>
    rw [hslot] at h
    cases h
    exact ⟨rfl, rfl, nofun⟩
  | some slot =>
    rw [hslot] at h
    cases kmalloc with
    | none =>
      cases h
      exact ⟨rfl, rfl, nofun⟩
    | some stack =>
      dsimp only at h
      split at h
      · cases h
      · next id next htake =>
        split at h
        · -- The process map is full: the stack is released and the slot is as it was.
          cases h
          have hempty := hcleared slot (freeSlot_some hslot).2
          refine ⟨?_, rfl, ?_⟩
          · simp only [State.logError, State.setTask, State.release, Function.update_idem]
            rw [← hempty, Function.update_eq_self]
          · rintro _ ⟨⟩
            exact ⟨_, rfl, rfl⟩
        · next ids hadd =>
          obtain ⟨hid, -⟩ := Prod.mk.inj (Option.some.inj h)
          exact absurd hid (PrMap.add_eq_some_iff.mp hadd).1

private theorem enroll_refused {destroys : Slot → Bool} {noStack unregistered : String}
    {kmalloc : Option Block} (hcleared : Cleared s)
    (h : enroll noStack unregistered fill kmalloc (reapDeadTasks destroys s) = some (0, s')) :
    Refused destroys ((freeSlot (reapDeadTasks destroys s).tasks).bind fun _ => kmalloc) s s' := by
  have hr := reapDeadTasks_reaped destroys s
  obtain ⟨htasks, hmap, hstack⟩ := enroll_zero (hcleared.reaped hr) h
  rw [hr.runningTaskId] at hstack
  refine ⟨fun i => ?_, hmap.trans hr.prMap, hstack⟩
  rw [htasks]
  exact hr.tasks i

private theorem Refused.quiet (destroys : Slot → Bool) (s : State) (text : String) :
    Refused destroys none s (s.logError text) := ⟨fun _ => .inl rfl, rfl, nofun⟩

/-- Every state that calls reach has clear empty slots, and in every such state a creation that
returns 0 leaves the task table, the process map and the caller's address space as they were but for
dead tasks that are reaped, and keeps no stack. -/
theorem creation_all_or_nothing :
    (∀ ops s, runOps ops boot = some s → Cleared s) ∧
    ∀ s, Cleared s →
      (∀ entry argument destroys kmalloc s',
        createTask entry argument destroys kmalloc s = some (0, s') →
          Refused destroys (createTaskStack entry destroys kmalloc s) s s') ∧
      ∀ addressSpace userStackPointer processId executable writable destroys kmalloc space' s',
        createUserTask addressSpace userStackPointer processId executable writable destroys kmalloc
            s = some (0, space', s') →
          space' = addressSpace ∧
            Refused destroys (createUserTaskStack addressSpace userStackPointer executable writable
              destroys kmalloc s) s s' := by
  refine ⟨fun ops s => runOps_cleared, fun s hcleared => ⟨?_, ?_⟩⟩
  · intro entry argument destroys kmalloc s' h
    unfold createTask at h
    unfold createTaskStack
    split at h
    · next hinvalid =>
      cases h
      rw [if_pos hinvalid]
      exact .quiet ..
    · next hvalid =>
      rw [if_neg hvalid]
      exact enroll_refused hcleared h
  · intro addressSpace userStackPointer processId executable writable destroys kmalloc space' s' h
    unfold createUserTask at h
    unfold createUserTaskStack
    cases addressSpace with
    | none =>
      cases h
      exact ⟨rfl, .quiet ..⟩
    | some space =>
      dsimp only [Option.bind_some] at h ⊢
      split at h
      · next hinvalid =>
        cases h
        rw [if_pos hinvalid]
        exact ⟨rfl, .quiet ..⟩
      · next hvalid =>
        rw [if_neg hvalid]
        obtain ⟨⟨id, t⟩, henroll, heq⟩ := Option.map_eq_some_iff.mp h
        obtain ⟨rfl, hrest⟩ := Prod.mk.inj heq
        obtain ⟨rfl, rfl⟩ := Prod.mk.inj hrest
        exact ⟨rfl, enroll_refused hcleared henroll⟩

/-- A table with free slots and a full process map. -/
def fullMap : State := { init boot with prMap := List.range' 1 32 }

/-- Creation without a stack, and creation with a full process map: the stack is released. -/
theorem creation_all_or_nothing_fullMap :
    (∃ s', createTask 1 0 (fun _ => true) none (init boot) = some (0, s') ∧ s'.prMap = [1]) ∧
    ∃ s', createTask 1 0 (fun _ => true) (some block) fullMap = some (0, s') ∧
      ∃ task : Task, task.stack = block.address ∧
        s'.history.released = (reapDeadTasks (fun _ => true) fullMap).history.released ++
          [⟨.stack, task, fullMap.runningTaskId⟩] := by
  obtain ⟨hruns, hall⟩ := creation_all_or_nothing
  constructor
  · have h : ((createTask 1 0 (fun _ => true) none (init boot)).map fun r => r.1) = some 0 := by
      decide +kernel
    obtain ⟨⟨id, s'⟩, hcall, rfl⟩ := Option.map_eq_some_iff.mp h
    have hrefused := (hall _ (hruns [.init] _ rfl)).1 _ _ _ _ _ hcall
    exact ⟨s', hcall, hrefused.prMap⟩
  · have h : ((createTask 1 0 (fun _ => true) (some block) fullMap).map fun r => r.1) = some 0 := by
      decide +kernel
    obtain ⟨⟨id, s'⟩, hcall, rfl⟩ := Option.map_eq_some_iff.mp h
    have hcleared : Cleared fullMap := fun i hi => hruns [.init] _ rfl i hi
    have htaken : createTaskStack 1 (fun _ => true) (some block) fullMap = some block := by
      have hslot : (freeSlot (reapDeadTasks (fun _ => true) fullMap).tasks).isSome = true := by
        decide +kernel
      obtain ⟨slot, hslot⟩ := Option.isSome_iff_exists.mp hslot
      rw [createTaskStack, if_neg (by decide), hslot]
      rfl
    have hrefused := (hall _ hcleared).1 _ _ _ _ _ hcall
    exact ⟨s', hcall, hrefused.stack block htaken⟩

end NasuaOS.Scheduler
