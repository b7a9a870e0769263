import NasuaOS.Scheduler.PrMap
import Mathlib.Algebra.Ring.Nat
import Mathlib.Data.List.FinRange

/-!
# The task table and the scheduler's calls

`src/kernel_64bit/src/system/scheduler/functions/scheduler.cpp`. Frames and stacks are addresses,
with 0 for the null pointer; the registers inside a frame are not modelled, since the scheduler
only writes them when it creates a task. What `kmalloc`, `pit_get_ticks`, `is_user_range`,
`activate_address_space` and `destroy_user_address_space` answer is an argument of the call.
Sleeping and exiting do not include the interrupt they raise: it is a call of `onInterrupt`.

`History` records what happened and is read by no call. Every task gets a number of its own, which
unlike its id is never used again.
-/

namespace NasuaOS.Scheduler

/-- `Scheduler::TaskState`. -/
inductive TaskState
  | empty
  | ready
  | running
  | sleeping
  | dead
  deriving DecidableEq, Repr

/-- `Memory::vmm::UserAddressSpace`. -/
structure UserAddressSpace where
  rootPhys : Nat := 0
  base : Nat := 0
  pml4Index : Nat := 0
  valid : Bool := false
  deriving DecidableEq, Repr

/-- `Scheduler::Task`, and the number of the task. -/
structure Task where
  id : Nat := 0
  state : TaskState := .empty
  entry : Nat := 0
  argument : Nat := 0
  stack : Nat := 0
  context : Nat := 0
  wakeTick : Nat := 0
  userMode : Bool := false
  processId : Nat := 0
  addressSpace : UserAddressSpace := {}
  serial : Nat := 0
  deriving DecidableEq, Repr

/-- `MAX_TASKS`. -/
abbrev maxTasks : Nat := 32

/-- `TASK_STACK_SIZE`. -/
def taskStackSize : Nat := 16 * 1024

/-- Slots of the task table. -/
abbrev Slot : Type := Fin maxTasks

/-- A block that `kmalloc(TASK_STACK_SIZE)` returned. -/
structure Block where
  address : Nat
  nonnull : 0 < address
  fits : address + taskStackSize < 2 ^ 64

/-- What a task holds besides its slot. -/
inductive Resource
  | stack
  | addressSpace
  deriving DecidableEq, Repr

/-- One release: what was released, the slot as it was, and who was current. -/
structure Release where
  resource : Resource
  task : Task
  runningTaskId : Nat
  deriving DecidableEq

/-- What happened so far. `frames` is newest first: the initial frame of a created task, and each
frame that the executing task was interrupted with. -/
structure History where
  created : Nat
  released : List Release
  executing : Nat
  frames : List (Nat × Nat)

/-- The static data of the scheduler and what it did to the processor and the process table. -/
structure State where
  tasks : Slot → Task
  prMap : List Nat
  runningTaskId : Nat
  nextTaskId : Nat
  initialized : Bool
  activeSpace : Option UserAddressSpace
  kernelStack : Nat
  finished : List (Nat × Int)
  log : List String
  history : History

/-- The static data before the first call. -/
def boot : State where
  tasks := fun _ => {}
  prMap := []
  runningTaskId := 0
  nextTaskId := 2
  initialized := false
  activeSpace := none
  kernelStack := 0
  finished := []
  log := []
  history := ⟨0, [], 0, []⟩

namespace State

/-- Replace one slot. -/
def setTask (s : State) (i : Slot) (task : Task) : State :=
  { s with tasks := Function.update s.tasks i task }

/-- `log(ERROR, "SCHEDULER", text)`. -/
def logError (s : State) (text : String) : State := { s with log := s.log ++ [text] }

/-- Record that something of a task is released. -/
def release (s : State) (resource : Resource) (task : Task) : State :=
  { s with history := { s.history with
      released := s.history.released ++ [⟨resource, task, s.runningTaskId⟩] } }

end State

/-- `find_task`. -/
def findTask (tasks : Slot → Task) (id : Nat) : Option Slot :=
  (List.finRange maxTasks).find? fun i => decide ((tasks i).id = id ∧ (tasks i).state ≠ .empty)

/-- Slots 1 and up, in the order of the loops over the table. -/
def taskSlots : List Slot := (List.finRange maxTasks).tail

/-- One round of the loop of `reap_dead_tasks`. -/
def reapSlot (destroys : Slot → Bool) (s : State) (i : Slot) : State :=
  let task := s.tasks i
  if task.state ≠ .dead ∨ task.id = s.runningTaskId then s
  else if task.userMode = true ∧ task.addressSpace.valid = true then
    if destroys i = true then
      ((s.release .addressSpace task).release .stack task).setTask i {}
    else s.logError "Unable to release a dead user task address space"
  else (s.release .stack task).setTask i {}

/-- `reap_dead_tasks`. -/
def reapDeadTasks (destroys : Slot → Bool) (s : State) : State :=
  taskSlots.foldl (reapSlot destroys) s

/-- `tick_deadline_reached`. -/
def tickDeadlineReached (now deadline : Nat) : Bool :=
  decide ((now + 2 ^ 64 - deadline) % 2 ^ 64 < 2 ^ 63)

/-- One round of the loop of `wake_sleeping_tasks`. -/
def wakeSlot (now : Nat) (s : State) (i : Slot) : State :=
  if (s.tasks i).state = .sleeping ∧ tickDeadlineReached now (s.tasks i).wakeTick = true then
    s.setTask i { s.tasks i with state := .ready }
  else s

/-- `wake_sleeping_tasks`. -/
def wakeSleepingTasks (now : Nat) (s : State) : State := taskSlots.foldl (wakeSlot now) s

/-- The loop of `next_ready_task`. -/
def searchReady (tasks : Slot → Task) (ids : List Nat) : Nat → Nat → Option Slot
  | 0, _ => none
  | count + 1, candidateId =>
    match findTask tasks (PrMap.next ids candidateId) with
    | some i =>
      if (tasks i).state = .ready then some i
      else searchReady tasks ids count (PrMap.next ids candidateId)
    | none => searchReady tasks ids count (PrMap.next ids candidateId)

/-- `next_ready_task`. -/
def nextReadyTask (s : State) (currentId : Nat) : Option Slot :=
  searchReady s.tasks s.prMap s.prMap.length currentId

/-- `init`. The code that runs becomes task 1. -/
def init (s : State) : State :=
  let kernel : Task := { id := 1, state := .running, serial := s.history.created }
  let cleared : State :=
    { s with
      tasks := Function.update (fun _ => {}) 0 kernel
      prMap := []
      runningTaskId := 1
      nextTaskId := 2
      history := { s.history with
        created := s.history.created + 1
        executing := s.history.created } }
  match PrMap.add [] 1 with
  | some ids => { cleared with prMap := ids, initialized := true }
  | none =>
    { cleared with initialized := false }.logError "Failed to register the kernel task"

/-- The search for an empty slot. -/
def freeSlot (tasks : Slot → Task) : Option Slot :=
  taskSlots.find? fun i => decide ((tasks i).state = .empty)

/-- `next_task_id++`, kept at 2 or more. -/
def advanceTaskId (next : Nat) : Nat :=
  if (next + 1) % 2 ^ 32 < 2 then 2 else (next + 1) % 2 ^ 32

/-- The loop that takes an id; `none` when it has not ended after `fuel` rounds. -/
def takeTaskId (tasks : Slot → Task) : Nat → Nat → Option (Nat × Nat)
  | 0, _ => none
  | fuel + 1, next =>
    if next = 0 ∨ (findTask tasks next).isSome = true then
      takeTaskId tasks fuel (advanceTaskId next)
    else some (next, advanceTaskId next)

/-- The part that `create_task` and `create_user_task` share after `reap_dead_tasks`: the id and the
new state, or `none` when the search for an id does not end. `fill` sets the fields in which the
two differ. -/
def enroll (noStack unregistered : String) (fill : Block → Task → Task) (kmalloc : Option Block)
    (s : State) : Option (Nat × State) :=
  match freeSlot s.tasks with
  | none => some (0, s.logError "Task table is full")
  | some slot =>
    match kmalloc with
    | none => some (0, s.logError noStack)
    | some stack =>
      match takeTaskId s.tasks (maxTasks + 1) s.nextTaskId with
      | none => none
      | some (id, next) =>
        let task := { fill stack (s.tasks slot) with
          id := id, state := .ready, stack := stack.address, serial := s.history.created }
        let filled := { s with
          nextTaskId := next
          history := { s.history with
            created := s.history.created + 1
            frames := (s.history.created, task.context) :: s.history.frames } }.setTask slot task
        match PrMap.add s.prMap id with
        | none => some (0, ((filled.release .stack task).setTask slot {}).logError unregistered)
        | some ids => some (id, { filled with prMap := ids })

/-- `create_task`. The frame ends below the last 8 bytes of the stack, without `rsp` and `ss`. -/
def createTask (entry argument : Nat) (destroys : Slot → Bool) (kmalloc : Option Block)
    (s : State) : Option (Nat × State) :=
  if s.initialized = false ∨ entry = 0 then
    some (0, s.logError
      "Cannot create a task before initialization or without an entry point")
  else
    enroll "Unable to allocate a task stack" "Unable to register the new task"
      (fun stack slot => { slot with
        entry := entry
        argument := argument
        context := (stack.address + taskStackSize) / 16 * 16 - 8 - 160 })
      kmalloc (reapDeadTasks destroys s)

/-- `create_user_task`: the id, the caller's address space afterwards, and the new state. The
answers of `is_user_range` for entry and stack are `executable` and `writable`. -/
def createUserTask (addressSpace : Option UserAddressSpace) (userStackPointer processId : Nat)
    (executable writable : Bool) (destroys : Slot → Bool) (kmalloc : Option Block) (s : State) :
    Option (Nat × Option UserAddressSpace × State) :=
  let invalid := s.logError
    "Cannot create a user task with invalid address space or context"
  match addressSpace with
  | none => some (0, none, invalid)
  | some space =>
    if s.initialized = false ∨ space.valid = false ∨ executable = false ∨ userStackPointer < 8 ∨
        writable = false then some (0, some space, invalid)
    else
      (enroll "Unable to allocate a user task kernel stack" "Unable to register the user task"
        (fun stack slot => { slot with
          userMode := true
          processId := processId
          addressSpace := space
          context := (stack.address + taskStackSize) / 16 * 16 - 176 })
        kmalloc (reapDeadTasks destroys s)).map fun (id, s) =>
          -- The caller's space is cleared on the path that returns an id, which is never 0.
          (id, some (if id = 0 then space else {}), s)

/-- `sleep_ticks`, up to the interrupt it raises. Task 1 waits in `Timer::sleep` instead. -/
def sleepTicks (ticks now : Nat) (s : State) : State :=
  if ticks = 0 then s
  else
    match findTask s.tasks s.runningTaskId with
    | none => s
    | some i =>
      if (s.tasks i).id = 1 then s
      else
        s.setTask i { s.tasks i with
          wakeTick := (now + ticks) % 2 ^ 64
          state := .sleeping }

/-- Mark a task dead and take it out of the process map. -/
def kill (i : Slot) (s : State) : State :=
  { s.setTask i { s.tasks i with state := .dead } with
    prMap := PrMap.remove s.prMap (s.tasks i).id }

/-- `exit_current`, up to the interrupt it raises. -/
def exitCurrent (s : State) : State :=
  match findTask s.tasks s.runningTaskId with
  | none => s
  | some i => if (s.tasks i).id = 1 then s else kill i s

/-- `Process::finish`, for a task that has a process. -/
def finishProcess (i : Slot) (exitCode : Int) (s : State) : State :=
  if (s.tasks i).processId ≠ 0 then
    { s with finished := s.finished ++ [((s.tasks i).processId, exitCode)] }
  else s

/-- `terminate_current_user_task`. -/
def terminateCurrentUserTask (exitCode : Int) (s : State) : State :=
  match findTask s.tasks s.runningTaskId with
  | none => s
  | some i =>
    if (s.tasks i).userMode = true ∧ (s.tasks i).state = .running then
      kill i (finishProcess i exitCode s)
    else s

/-- What `on_interrupt` does first: keep the frame of a running current task. -/
def saveCurrent (frame : Nat) (s : State) : State :=
  match findTask s.tasks s.runningTaskId with
  | none => s
  | some i =>
    if (s.tasks i).state = .running then
      s.setTask i { s.tasks i with context := frame, state := .ready }
    else if (s.tasks i).state = .dead ∧ (s.tasks i).userMode = true then
      { s with activeSpace := none }
    else s

/-- Record the frame that the executing task was interrupted with. -/
def noteFrame (frame : Nat) (s : State) : State :=
  { s with history := { s.history with
      frames := (s.history.executing, frame) :: s.history.frames } }

/-- The state in which `on_interrupt` chooses a task. -/
def prepare (frame now : Nat) (destroys : Slot → Bool) (s : State) : State :=
  wakeSleepingTasks now (reapDeadTasks destroys (saveCurrent frame (noteFrame frame s)))

/-- What `on_interrupt` does with the task it chose: the frame it returns and the new state. -/
def dispatch (next : Slot) (frame : Nat) (activates : Bool) (s : State) : Nat × State :=
  let task := s.tasks next
  let chosen := { s with runningTaskId := task.id }.setTask next { task with state := .running }
  if task.userMode = true ∧ activates = false then
    let failed := finishProcess next (-1)
      (chosen.logError "Unable to activate a user task address space")
    (frame, { kill next failed with activeSpace := none })
  else
    let active := { chosen with
      activeSpace := if task.userMode = true then some task.addressSpace else none
      kernelStack := if task.stack ≠ 0 then task.stack + taskStackSize else s.kernelStack }
    if task.context ≠ 0 then
      (task.context, { active with history := { active.history with executing := task.serial } })
    else (frame, active)

/-- `on_interrupt`. -/
def onInterrupt (frame now : Nat) (activates : Bool) (destroys : Slot → Bool) (s : State) :
    Nat × State :=
  if s.initialized = false ∨ frame = 0 then (frame, s)
  else
    let s := prepare frame now destroys s
    match nextReadyTask s s.runningTaskId with
    | none => (frame, s)
    | some next => dispatch next frame activates s

/-- The calls of a run, with what the rest of the kernel answers. -/
inductive Op
  | init
  | createTask (entry argument : Nat) (destroys : Slot → Bool) (kmalloc : Option Block)
  | createUserTask (addressSpace : Option UserAddressSpace) (userStackPointer processId : Nat)
      (executable writable : Bool) (destroys : Slot → Bool) (kmalloc : Option Block)
  | sleepTicks (ticks now : Nat)
  | exitCurrent
  | terminateCurrentUserTask (exitCode : Int)
  | onInterrupt (frame now : Nat) (activates : Bool) (destroys : Slot → Bool)

/-- The state after one call; `none` when it does not return. -/
def Op.run : Op → State → Option State
  | .init, s => some (Scheduler.init s)
  | .createTask entry argument destroys kmalloc, s =>
    (Scheduler.createTask entry argument destroys kmalloc s).map fun r => r.2
  | .createUserTask addressSpace userStackPointer processId executable writable destroys kmalloc,
      s =>
    (Scheduler.createUserTask addressSpace userStackPointer processId executable writable
      destroys kmalloc s).map fun r => r.2.2
  | .sleepTicks ticks now, s => some (Scheduler.sleepTicks ticks now s)
  | .exitCurrent, s => some (Scheduler.exitCurrent s)
  | .terminateCurrentUserTask exitCode, s =>
    some (Scheduler.terminateCurrentUserTask exitCode s)
  | .onInterrupt frame now activates destroys, s =>
    some (Scheduler.onInterrupt frame now activates destroys s).2

/-- Calls in a row. -/
def runOps : List Op → State → Option State
  | [], s => some s
  | op :: rest, s => (op.run s).bind (runOps rest)

/-- Every call of a row is made in a state in which it may be. -/
def Throughout (ok : State → Op → Prop) : List Op → State → Prop
  | [], _ => True
  | op :: rest, s => ok s op ∧ ∀ s', op.run s = some s' → Throughout ok rest s'

variable {s : State} {P Q : State → Op → Prop}

/-- The condition holds of the last call of a row. -/
theorem Throughout.last {ok : State → Op → Prop} (ops : List Op) {op : Op} {s' : State}
    (h : Throughout ok (ops ++ [op]) s) (hrun : runOps ops s = some s') : ok s' op := by
  induction ops generalizing s with
  | nil =>
    cases hrun
    exact h.1
  | cons first rest ih =>
    rw [runOps, Option.bind_eq_some_iff] at hrun
    obtain ⟨s₁, hfirst, hrest⟩ := hrun
    exact ih (h.2 s₁ hfirst) hrest

/-- A condition that keeps an invariant and, where that holds, implies another condition implies it
over whole runs. -/
theorem Throughout.mono {I : State → Prop} (himp : ∀ s op, I s → P s op → Q s op)
    (hkeep : ∀ s op s', I s → P s op → op.run s = some s' → I s') (ops : List Op) (hs : I s)
    (h : Throughout P ops s) : Throughout Q ops s := by
  induction ops generalizing s with
  | nil => trivial
  | cons op rest ih =>
    refine ⟨himp s op hs h.1, ?_⟩
    intro s' hrun
    exact ih (hkeep s op s' hs h.1 hrun) (h.2 s' hrun)

/-- Two conditions that agree wherever an invariant holds, and that keep the invariant, agree over
whole runs. -/
theorem throughout_iff {I : State → Prop} (hiff : ∀ s op, I s → (P s op ↔ Q s op))
    (hkeep : ∀ s op s', I s → Q s op → op.run s = some s' → I s') (ops : List Op) (hs : I s) :
    Throughout P ops s ↔ Throughout Q ops s := by
  constructor
  · apply Throughout.mono (fun s op h => (hiff s op h).mp) _ ops hs
    intro s op s' h hp hrun
    exact hkeep s op s' h ((hiff s op h).mp hp) hrun
  · exact Throughout.mono (fun s op h => (hiff s op h).mpr) hkeep ops hs

instance decidableThroughout (ok : State → Op → Prop) [∀ s op, Decidable (ok s op)] :
    (ops : List Op) → (s : State) → Decidable (Throughout ok ops s)
  | [], _ => isTrue trivial
  | op :: rest, s =>
    match h : op.run s with
    | none =>
      decidable_of_iff (ok s op)
        ⟨fun hok => ⟨hok, fun _ hs => by rw [h] at hs; cases hs⟩, fun ht => ht.1⟩
    | some s' =>
      have := decidableThroughout ok rest s'
      decidable_of_iff (ok s op ∧ Throughout ok rest s')
        ⟨fun ht => ⟨ht.1, fun _ hs => by rw [h] at hs; cases hs; exact ht.2⟩,
          fun ht => ⟨ht.1, ht.2 s' h⟩⟩

end NasuaOS.Scheduler
