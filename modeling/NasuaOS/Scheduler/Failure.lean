import NasuaOS.Scheduler.Context

/-!
# When an address space cannot be activated

`on_interrupt` makes the chosen task current before it activates its address space. When that
fails it kills the task and returns the interrupted frame, but the id of the dead task stays
current, so the scheduler and the processor disagree about who executes.
-/

namespace NasuaOS.Scheduler

variable {s s' : State}

/-- The interrupt has a frame, and the address space of the task it chooses can be activated. -/
def Activated (s : State) : Op → Prop
  | .onInterrupt frame now activates destroys =>
    frame ≠ 0 ∧ ∀ next, selected frame now destroys s = some next →
      ((prepare frame now destroys s).tasks next).userMode = true → activates = true
  | _ => True

/-- After an interrupt the current task exists, runs and owns the frame that is returned. -/
def RunsWithOwnFrame (frame : Nat) (s : State) : Prop :=
  ∃ i, findTask s.tasks s.runningTaskId = some i ∧ (s.tasks i).state = .running ∧
    ((s.tasks i).serial, frame) ∈ s.history.frames

/-- After an interrupt the current task runs and owns the returned frame, and no call releases
anything of the task that executes it. -/
def Settles (s : State) (op : Op) : Prop :=
  ∀ s', op.run s = some s' →
    (∀ frame now activates destroys, op = .onInterrupt frame now activates destroys →
      RunsWithOwnFrame (onInterrupt frame now activates destroys s).1 s') ∧
    ∀ r ∈ s'.history.released, r.task.serial ≠ s.history.executing

private theorem released_fillSlot (slot : Slot) (task : Task) (next : Nat) (s : State) :
    (fillSlot slot task next s).history.released = s.history.released := rfl

private theorem Tracked.effect_unreleased (h : Tracked s) {op : Op} (he : Effect op s s') :
    ∀ r ∈ s'.history.released, r.task.serial ≠ s.history.executing := by
  rcases Keeps.of_effect he with hk | rfl | ⟨destroys, slot, task, next, -, rfl⟩
  · rw [← hk.executing]
    exact (h.keeps (h.sound.effect he) hk).unreleased
  · exact h.unreleased
  · have hk := Keeps.reapDeadTasks s destroys
    have hr := (h.keeps (h.sound.reapDeadTasks destroys) hk).unreleased
    rw [released_fillSlot, ← hk.executing]
    exact hr

private theorem released_dispatch (next : Slot) (frame : Nat) (activates : Bool) (hs : Sound s)
    (hready : (s.tasks next).state = .ready) :
    (dispatch next frame activates s).2.history.released = s.history.released := by
  refine hs.dispatch_cases hready frame activates ?_ ?_
  · exact fun _ _ => rfl
  · exact fun _ _ _ => rfl

private theorem executing_prepare (frame now : Nat) (destroys : Slot → Bool) (s : State) :
    (prepare frame now destroys s).history.executing = s.history.executing := by
  have hk := (Keeps.reapDeadTasks (saveCurrent frame (noteFrame frame s)) destroys).trans
    (Keeps.wakeSleepingTasks _ now)
  rw [prepare, hk.executing]
  rcases saveCurrent_cases frame (noteFrame frame s) with ⟨i, -, -, heq⟩ | ⟨-, space, heq⟩
  · rw [heq]
    rfl
  · rw [heq]
    rfl

private theorem Tracked.runsWithOwnFrame (h : Tracked s) (hidle : Idle s) {next : Slot}
    (hready : (s.tasks next).state = .ready) (frame : Nat) {activates : Bool}
    (hok : (s.tasks next).userMode = true → activates = true) :
    RunsWithOwnFrame (Scheduler.dispatch next frame activates s).1
      (Scheduler.dispatch next frame activates s).2 := by
  have hd := (h.dispatch hidle hready frame hok).sound
  have hc := h.sound.context_ne_zero hready
  obtain ⟨space, stack, heq⟩ := dispatch_resumes s frame hok hc
  rw [heq] at hd ⊢
  refine ⟨next, ?_, ?_, ?_⟩
  · apply hd.findTask_running
    simp
  · simp
  · simpa using h.belonging next (by simp [hready]) hc

private theorem not_runsWithOwnFrame (hs : Sound s) (hidle : Idle s) {next : Slot}
    (hready : (s.tasks next).state = .ready) (frame : Nat)
    (hu : (s.tasks next).userMode = true) (frame' : Nat) :
    ¬RunsWithOwnFrame frame' (dispatch next frame false s).2 := by
  have hd := hs.dispatch hidle hready frame false
  obtain ⟨log, finished, heq⟩ := dispatch_fails s frame hu
  rw [heq] at hd ⊢
  rintro ⟨i, hi, hr, -⟩
  have hi' := findTask_some hi
  have hin : i = next := by
    apply hd.table.idInj i next hi'.2 (by simp)
    rw [hi'.1]
    simp
  rw [hin] at hr
  simp at hr

private theorem Tracked.settles_onInterrupt_iff (h : Tracked s) (frame now : Nat) (activates : Bool)
    (destroys : Slot → Bool) : Settles s (.onInterrupt frame now activates destroys) ↔
      Activated s (.onInterrupt frame now activates destroys) := by
  constructor
  · intro hset
    obtain ⟨hruns, -⟩ := hset _ rfl
    have hruns := hruns frame now activates destroys rfl
    have hf : frame ≠ 0 := by
      rintro rfl
      rw [onInterrupt, if_pos (.inr rfl)] at hruns
      obtain ⟨i, -, -, hmem⟩ := hruns
      exact (h.recorded _ hmem).2 rfl
    refine ⟨hf, ?_⟩
    intro next hn hu
    obtain ⟨next', hn', hp, hidle, hready, heq⟩ :=
      onInterrupt_eq h.sound hf now activates destroys
    rw [hn, Option.some.injEq] at hn'
    subst hn'
    rw [heq] at hruns
    cases activates with
    | true => rfl
    | false => exact absurd hruns (not_runsWithOwnFrame hp hidle hready frame hu _)
  · rintro ⟨hf, hact⟩ s' hrun
    obtain ⟨next, hn, hp, hidle, hready, heq⟩ :=
      onInterrupt_eq h.sound hf now activates destroys
    have ht := h.prepare hf now destroys
    rw [Op.run, Option.some.injEq] at hrun
    subst hrun
    constructor
    · rintro _ _ _ _ ⟨⟩
      rw [heq]
      exact ht.runsWithOwnFrame hidle hready frame (hact next hn)
    · rw [heq, released_dispatch next frame activates hp hready,
        ← executing_prepare frame now destroys s]
      exact ht.unreleased

private theorem Tracked.settles_iff (h : Tracked s) (op : Op) : Settles s op ↔ Activated s op := by
  by_cases hint : ∃ frame now activates destroys, op = .onInterrupt frame now activates destroys
  · obtain ⟨frame, now, activates, destroys, rfl⟩ := hint
    exact h.settles_onInterrupt_iff frame now activates destroys
  · have hop : ∀ frame now activates destroys, op ≠ .onInterrupt frame now activates destroys :=
      fun frame now activates destroys heq => hint ⟨frame, now, activates, destroys, heq⟩
    have hset : Settles s op := by
      intro s' hrun
      refine ⟨fun frame now activates destroys heq => absurd heq (hop _ _ _ _), ?_⟩
      cases h.sound.turn_of_run hrun with
      | effect he => exact h.effect_unreleased he
      | interrupt => exact absurd rfl (hop _ _ _ _)
    have hact : Activated s op := by
      cases op with
      | onInterrupt frame now activates destroys => exact absurd rfl (hop _ _ _ _)
      | _ => trivial
    exact ⟨fun _ => hact, fun _ => hset⟩

/-- A call that settles keeps the invariant. -/
theorem Tracked.run (h : Tracked s) {op : Op} (hact : Activated s op) (hrun : op.run s = some s') :
    Tracked s' := by
  cases h.sound.turn_of_run hrun with
  | effect he => exact h.effect he
  | interrupt hf hn _ hidle hready =>
    exact (h.prepare hf _ _).dispatch hidle hready _ (hact.2 _ hn)

/-- In a run from `init` every interrupt leaves a running current task that owns the returned
frame, and no call releases anything of the executing task, if and only if every interrupt has a
frame and activates the address space of the user task that it chooses. -/
theorem settles_iff_activated (ops : List Op) :
    Throughout Settles ops (init boot) ↔ Throughout Activated ops (init boot) :=
  throughout_iff (I := Tracked) (fun _ op h => h.settles_iff op) (fun _ _ _ h ha hr => h.run ha hr)
    ops tracked_boot

/-- The first interrupt chooses a user task whose address space cannot be activated: the dead task
stays current. -/
theorem failed_activation_leaves_dead_current :
    ¬Throughout Settles
      ([.createUserTask (some ⟨4096, 0, 1, true⟩) 16384 42 true true (fun _ => true) (some block)] ++
        [.onInterrupt 256 0 false fun _ => true]) (init boot) := by
  intro hall
  have h : (runOps [.createUserTask (some ⟨4096, 0, 1, true⟩) 16384 42 true true (fun _ => true)
      (some block)] (init boot)).any (fun s =>
        decide (currentState (onInterrupt 256 0 false (fun _ => true) s).2 = some .dead)) = true := by
    decide +kernel
  rw [Option.any_eq_true] at h
  obtain ⟨s, hs, h⟩ := h
  obtain ⟨hruns, -⟩ := hall.last _ hs _ rfl
  obtain ⟨i, hi, hr, -⟩ := hruns _ _ _ _ rfl
  rw [decide_eq_true_eq, currentState, hi, Option.map_some, hr] at h
  cases h

end NasuaOS.Scheduler
