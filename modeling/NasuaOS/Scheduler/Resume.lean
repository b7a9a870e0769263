import NasuaOS.Scheduler.Failure

/-!
# Tasks resume where they were left

`on_interrupt` saves the interrupted frame only for a current task that is still running. A task
that went to sleep is not: its new frame is lost and it later resumes at the frame saved before,
unless the two are the same.
-/

namespace NasuaOS.Scheduler

open Base Function

variable {s s' : State} {i : Slot}

/-- The frame that a task was last left at: its initial frame, or the last frame that it was
interrupted with. -/
def lastFrame (s : State) (serial : Nat) : Option Nat := s.history.frames.lookup serial

/-- The saved frame of a registered task is the one it was last left at. -/
def UpToDate (s : State) : Prop :=
  ∀ i, (s.tasks i).state ≠ .empty → (s.tasks i).id ∈ s.prMap →
    (lastFrame s (s.tasks i).serial).getD 0 = (s.tasks i).context

/-- Between two calls the current task is not waiting for its turn. -/
def NotWaiting (s : State) : Prop :=
  ∀ i, (s.tasks i).state = .ready → (s.tasks i).id ≠ s.runningTaskId

/-- Every address space can be activated. -/
def Activates : Op → Prop
  | .onInterrupt _ _ activates _ => activates = true
  | _ => True

/-- A sleeping current task is interrupted with the frame that is already saved for it. -/
def SleepsAtSavedFrame (s : State) : Op → Prop
  | .onInterrupt frame _ _ _ =>
    match findTask s.tasks s.runningTaskId with
    | some i => frame ≠ 0 → (s.tasks i).state = .sleeping → (s.tasks i).context = frame
    | none => True
  | _ => True

instance : (op : Op) → Decidable (Activates op)
  | .onInterrupt _ _ activates _ => inferInstanceAs (Decidable (activates = true))
  | .init | .createTask .. | .createUserTask .. | .sleepTicks .. | .exitCurrent
  | .terminateCurrentUserTask _ => isTrue trivial

instance (s : State) : (op : Op) → Decidable (SleepsAtSavedFrame s op)
  | .onInterrupt frame _ _ _ =>
    match h : findTask s.tasks s.runningTaskId with
    | some i =>
      decidable_of_iff (frame ≠ 0 → (s.tasks i).state = .sleeping → (s.tasks i).context = frame)
        (by rw [SleepsAtSavedFrame, h])
    | none => isTrue (by rw [SleepsAtSavedFrame, h]; trivial)
  | .init | .createTask .. | .createUserTask .. | .sleepTicks .. | .exitCurrent
  | .terminateCurrentUserTask _ => isTrue trivial

/-- The task that an interrupt chooses gets the frame that it was last left at; the frame of the
interrupt itself is where the executing task is left. -/
def Resumes (s : State) (op : Op) : Prop :=
  ∀ frame now activates destroys, op = .onInterrupt frame now activates destroys → frame ≠ 0 →
    ∃ next, selected frame now destroys s = some next ∧
      (onInterrupt frame now activates destroys s).2.runningTaskId =
        ((onInterrupt frame now activates destroys s).2.tasks next).id ∧
      lastFrame (onInterrupt frame now activates destroys s).2
          ((onInterrupt frame now activates destroys s).2.tasks next).serial =
        some (onInterrupt frame now activates destroys s).1

private theorem UpToDate.keeps (hu : UpToDate s) (h : Keeps s s') : UpToDate s' := by
  intro i hi hmem
  obtain ⟨hi', hid, hserial, hcontext⟩ := h.tasks i hi
  rw [hid] at hmem
  rw [lastFrame, hserial, hcontext, h.frames]
  exact hu i hi' (h.prMap hmem)

private theorem lookup_cons_of_ne {serial serial' frame : Nat} {frames : List (Nat × Nat)}
    (h : serial' ≠ serial) : ((serial, frame) :: frames).lookup serial' = frames.lookup serial' := by
  rw [List.lookup_cons, beq_eq_false_iff_ne.mpr h]

private theorem UpToDate.saveCurrent (hu : UpToDate s) (h : Tracked s) (hw : NotWaiting s) {frame : Nat}
    (hsleep : ∀ i, findTask s.tasks s.runningTaskId = some i → (s.tasks i).state = .sleeping →
      (s.tasks i).context = frame) : UpToDate (saveCurrent frame (noteFrame frame s)) := by
  -- Tasks other than the executing one keep both frames.
  have hother : ∀ j, (s.tasks j).state ≠ .empty → (s.tasks j).id ∈ s.prMap →
      (s.tasks j).serial ≠ s.history.executing →
      (lastFrame (noteFrame frame s) (s.tasks j).serial).getD 0 = (s.tasks j).context := by
    intro j hj hmem hne
    rw [lastFrame, noteFrame, lookup_cons_of_ne hne]
    exact hu j hj hmem
  have hself : lastFrame (noteFrame frame s) s.history.executing = some frame :=
    List.lookup_cons_self
  rcases saveCurrent_cases frame (noteFrame frame s) with ⟨i, hi, -, heq⟩ | ⟨hr, space, heq⟩
  · have hserial := h.serial_current hi
    rw [heq]
    intro j hj hmem
    by_cases hji : j = i
    · subst hji
      change (lastFrame (noteFrame frame s) (update s.tasks j _ j).serial).getD 0 =
        (update s.tasks j _ j).context
      rw [update_self]
      change (lastFrame (noteFrame frame s) (s.tasks j).serial).getD 0 = frame
      rw [hserial, hself, Option.getD_some]
    · have hne : (s.tasks j).serial ≠ s.history.executing := by
        intro hs
        change (update s.tasks i _ j).state ≠ .empty at hj
        rw [update_of_ne hji] at hj
        exact hji (h.sound.ledger.serialInj j i hj (findTask_some hi).2 (hs.trans hserial.symm))
      simp only [State.setTask, update_of_ne hji] at hj hmem ⊢
      exact hother j hj hmem hne
  · rw [heq]
    intro j hj hmem
    by_cases hs : (s.tasks j).serial = s.history.executing
    · -- The executing task does not run, wait or lie dead: it sleeps.
      obtain ⟨c, hc, hid, hserial⟩ := h.current
      have hjc : j = c := h.sound.ledger.serialInj j c hj hc (hs.trans hserial.symm)
      subst hjc
      have hfind : findTask s.tasks s.runningTaskId = some j := by
        rw [← hid]
        exact findTask_eq_some h.sound.table.idInj hj
      have hlive := h.sound.table.live_of_mem hj hmem
      have hasleep : (s.tasks j).state = .sleeping := by
        cases hst : (s.tasks j).state with
        | sleeping => rfl
        | empty => exact absurd hst hj
        | dead => exact absurd hst hlive.2
        | ready => exact absurd hid (hw j hst)
        | running =>
          refine absurd ?_ hr
          change (findTask s.tasks s.runningTaskId).map (fun i => (s.tasks i).state) = _
          rw [hfind, Option.map_some, hst]
      change (lastFrame (noteFrame frame s) (s.tasks j).serial).getD 0 = (s.tasks j).context
      rw [hs, hself, Option.getD_some, hsleep j hfind hasleep]
    · exact hother j hj hmem hs

private theorem UpToDate.dispatch (hu : UpToDate s) (hs : Sound s) {next : Slot}
    (hready : (s.tasks next).state = .ready) (frame : Nat) {activates : Bool}
    (hok : (s.tasks next).userMode = true → activates = true) :
    UpToDate (dispatch next frame activates s).2 := by
  obtain ⟨space, stack, heq⟩ :=
    dispatch_resumes s frame hok (hs.context_ne_zero hready)
  rw [heq]
  apply (forall_update_iff s.tasks fun _ t => t.state ≠ .empty → t.id ∈ s.prMap →
    (lastFrame s t.serial).getD 0 = t.context).mpr
  exact ⟨fun _ => hu next (by simp [hready]), fun j _ => hu j⟩

private theorem UpToDate.fillSlot (hu : UpToDate s) (hs : Sound s) {slot : Slot} {task : Task}
    (hfresh : Fresh s slot task) (next : Nat) : UpToDate (fillSlot slot task next s) := by
  intro j hj hmem
  by_cases hji : j = slot
  · subst hji
    simp only [lastFrame, Scheduler.fillSlot, update_self, hfresh.serial,
      List.lookup_cons_self, Option.getD_some]
  · simp only [Scheduler.fillSlot, update_of_ne hji] at hj hmem ⊢
    have hne : (s.tasks j).serial ≠ s.history.created := (hs.ledger.serialLt j hj).ne
    rw [lastFrame, lookup_cons_of_ne hne]
    apply hu j hj
    rcases List.mem_append.mp hmem with hmem | hmem
    · exact hmem
    · exact absurd (List.mem_singleton.mp hmem) (findTask_none hfresh.unused j hj)

private theorem upToDate_init (hr : Recorded s) : UpToDate (init s) := by
  intro j hj _
  by_cases h0 : j = 0
  · rw [h0]
    change ((s.history.frames.lookup s.history.created).getD 0) = 0
    have hnone : s.history.frames.lookup s.history.created = none := by
      rw [List.lookup_eq_none_iff]
      intro p hp
      exact bne_iff_ne.mpr (hr p hp).1.ne'
    rw [hnone, Option.getD_none]
  · change (update (fun _ => ({} : Task)) 0 _ j).state ≠ .empty at hj
    rw [update_of_ne h0] at hj
    exact absurd rfl hj

private theorem NotWaiting.restate (h : NotWaiting s) {t : Task} {ids : List Nat}
    {finished : List (Nat × Int)} (ht : t.state ≠ .ready) : NotWaiting { s with
      tasks := update s.tasks i t, prMap := ids, finished := finished } := by
  apply (forall_update_iff s.tasks fun _ t => t.state = .ready → t.id ≠ s.runningTaskId).mpr
  exact ⟨fun hready => absurd hready ht, fun j _ => h j⟩

private theorem NotWaiting.reaped (h : NotWaiting s) (hr : Reaped s s') : NotWaiting s' := by
  intro i hi
  rw [hr.runningTaskId]
  rcases hr.tasks i with heq | ⟨heq, -⟩
  · rw [heq] at hi ⊢
    exact h i hi
  · rw [heq] at hi
    cases hi

private theorem NotWaiting.enrolled (h : NotWaiting s) (hc : Current s) (he : Enrolled s s') :
    NotWaiting s' := by
  cases he with
  | refused log => exact h
  | @filled slot task next fresh range =>
    apply (forall_update_iff s.tasks fun _ t =>
      t.state = .ready → t.id ≠ s.runningTaskId).mpr
    refine ⟨fun _ => ?_, fun j _ => h j⟩
    -- The current task is there, so its id is not given away.
    obtain ⟨c, hused, hid, -⟩ := hc
    rw [← hid]
    exact (findTask_none fresh.unused c hused).symm

private theorem notWaiting_init (s : State) : NotWaiting (init s) := by
  intro j hj
  by_cases h0 : j = 0
  · rw [h0] at hj
    cases hj
  · change (update (fun _ => ({} : Task)) 0 _ j).state = .ready at hj
    rw [update_of_ne h0] at hj
    cases hj

private theorem NotWaiting.effect (h : NotWaiting s) (ht : Tracked s) {op : Op} (he : Effect op s s') :
    NotWaiting s' := by
  cases he with
  | quiet log => exact h
  | created destroys enrolled =>
    exact (h.reaped (reapDeadTasks_reaped destroys s)).enrolled
      ((Keeps.reapDeadTasks s destroys).keepsCurrent ht.current) enrolled
  | slept call positive current nonzero | killed current nonzero finished =>
    exact h.restate (by simp)
  | init => exact notWaiting_init s

private theorem NotWaiting.dispatch (hs : Sound s) {next : Slot}
    (hready : (s.tasks next).state = .ready) (frame : Nat) {activates : Bool}
    (hok : (s.tasks next).userMode = true → activates = true) :
    NotWaiting (dispatch next frame activates s).2 := by
  obtain ⟨space, stack, heq⟩ :=
    dispatch_resumes s frame hok (hs.context_ne_zero hready)
  rw [heq]
  intro j hj hid
  by_cases hji : j = next
  · simp [hji] at hj
  · simp only [update_of_ne hji] at hj hid
    exact hji (hs.table.idInj j next (by simp [hj]) (by simp [hready]) hid)

/-- The invariant of runs that lose no frame. -/
structure Resumable (s : State) : Prop where
  tracked : Tracked s
  upToDate : UpToDate s
  notWaiting : NotWaiting s

namespace Resumable

private theorem prepare (h : Resumable s) {frame : Nat} (hf : frame ≠ 0) (now : Nat)
    (activates : Bool) (destroys : Slot → Bool)
    (hop : SleepsAtSavedFrame s (.onInterrupt frame now activates destroys)) :
    UpToDate (prepare frame now destroys s) := by
  have hsleep : ∀ i, findTask s.tasks s.runningTaskId = some i →
      (s.tasks i).state = .sleeping → (s.tasks i).context = frame := by
    intro i hi
    rw [SleepsAtSavedFrame, hi] at hop
    exact hop hf
  have hsaved := h.upToDate.saveCurrent h.tracked h.notWaiting hsleep
  exact (hsaved.keeps (Keeps.reapDeadTasks _ destroys)).keeps (Keeps.wakeSleepingTasks _ now)

private theorem run (h : Resumable s) {op : Op} (hact : Activates op) (hop : SleepsAtSavedFrame s op)
    (hrun : op.run s = some s') : Resumable s' := by
  have htracked : Tracked s' := by
    cases h.tracked.sound.turn_of_run hrun with
    | effect he => exact h.tracked.effect he
    | interrupt hf =>
      refine h.tracked.run ?_ hrun
      exact ⟨hf, fun _ _ _ => hact⟩
  refine ⟨htracked, ?_, ?_⟩
  · cases h.tracked.sound.turn_of_run hrun with
    | effect he =>
      rcases Keeps.of_effect he with hk | rfl | ⟨destroys, slot, task, next, hfresh, rfl⟩
      · exact h.upToDate.keeps hk
      · exact upToDate_init h.tracked.recorded
      · exact (h.upToDate.keeps (Keeps.reapDeadTasks s destroys)).fillSlot
          (h.tracked.sound.reapDeadTasks destroys) hfresh next
    | interrupt hf _ hp _ hready =>
      exact (h.prepare hf _ _ _ hop).dispatch hp hready _ (fun _ => hact)
  · cases h.tracked.sound.turn_of_run hrun with
    | effect he => exact h.notWaiting.effect h.tracked he
    | interrupt _ _ hp _ hready => exact NotWaiting.dispatch hp hready _ (fun _ => hact)

private theorem resumes (h : Resumable s) {op : Op} (hact : Activates op)
    (hop : SleepsAtSavedFrame s op) : Resumes s op := by
  rintro frame now activates destroys rfl hf
  obtain ⟨next, hn, hp, -, hready, heq⟩ :=
    onInterrupt_eq h.tracked.sound hf now activates destroys
  have hmem := (hp.next_ready hn).2.1
  have hc := hp.context_ne_zero hready
  have hlast := h.prepare hf now activates destroys hop next (by simp [hready]) hmem
  refine ⟨next, hn, ?_⟩
  obtain ⟨space, stack, hd⟩ := dispatch_resumes _ frame (fun _ => hact) hc
  rw [heq, hd]
  refine ⟨by simp, ?_⟩
  simp only [lastFrame, update_self] at hlast ⊢
  cases hl : (Scheduler.prepare frame now destroys s).history.frames.lookup
      ((Scheduler.prepare frame now destroys s).tasks next).serial with
  | none =>
    rw [hl, Option.getD_none] at hlast
    exact absurd hlast.symm hc
  | some last =>
    rw [hl, Option.getD_some] at hlast
    rw [hlast]

end Resumable

private theorem resumable_boot : Resumable (init boot) where
  tracked := tracked_boot
  upToDate := by
    apply upToDate_init
    intro p hp
    cases hp
  notWaiting := notWaiting_init boot

/-- In every run from `init` in which address spaces can be activated and a sleeping current task
is interrupted only with the frame already saved for it, every interrupt gives the task that it
chooses exactly the frame that the task was last left at. -/
theorem resumes_where_left (ops : List Op)
    (hops : Throughout (fun s op => Activates op ∧ SleepsAtSavedFrame s op) ops (init boot)) :
    Throughout Resumes ops (init boot) := by
  apply Throughout.mono (I := Resumable) _ _ ops resumable_boot hops
  · intro s op h hop
    exact h.resumes hop.1 hop.2
  · intro s op s' h hop hrun
    exact h.run hop.1 hop.2 hrun

/-- A task that is preempted, resumed and put to sleep at the frame that was saved for it. -/
theorem resumes_where_left_preempted :
    Throughout Resumes
      [.createTask 1 0 (fun _ => true) (some block), .onInterrupt 256 0 true fun _ => true,
        .onInterrupt 512 0 true fun _ => true, .onInterrupt 768 0 true fun _ => true,
        .sleepTicks 1 0, .onInterrupt 512 0 true fun _ => true,
        .onInterrupt 768 1 true fun _ => true] (init boot) :=
  resumes_where_left _ (by decide +kernel)

/-- A task runs, goes to sleep and is switched away from. -/
def sleeperLeaves : List Op :=
  [.createTask 1 0 (fun _ => true) (some block), .onInterrupt 256 0 true fun _ => true,
    .sleepTicks 1 0, .onInterrupt 512 0 true fun _ => true]

/-- The task was left at frame 512, but when it wakes up it starts again at its initial frame. -/
theorem sleeper_resumes_at_stale_frame :
    Throughout (fun _ op => Activates op) (sleeperLeaves ++ [.onInterrupt 768 1 true fun _ => true])
        (init boot) ∧
      ¬Throughout Resumes (sleeperLeaves ++ [.onInterrupt 768 1 true fun _ => true])
        (init boot) := by
  refine ⟨by decide +kernel, ?_⟩
  intro hall
  have h : (runOps sleeperLeaves (init boot)).any (fun s =>
      let r := onInterrupt 768 1 true (fun _ => true) s
      decide (selected 768 1 (fun _ => true) s = some 1) &&
        decide (lastFrame r.2 (r.2.tasks 1).serial = some 512) && decide (r.1 ≠ 512)) = true := by
    decide +kernel
  rw [Option.any_eq_true] at h
  obtain ⟨s, hs, h⟩ := h
  rw [Bool.and_eq_true, Bool.and_eq_true, decide_eq_true_eq, decide_eq_true_eq,
    decide_eq_true_eq] at h
  obtain ⟨next, hn, -, hlast⟩ := hall.last _ hs _ _ _ _ rfl (by decide)
  rw [h.1.1, Option.some.injEq] at hn
  rw [← hn, h.1.2, Option.some.injEq] at hlast
  exact h.2 hlast.symm

end NasuaOS.Scheduler
