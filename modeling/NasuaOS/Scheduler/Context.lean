import NasuaOS.Scheduler.Coherence

/-!
# Whose frame an interrupt returns

`History` keeps, for every task, the frames it was left at. Between two interrupts the task that
executes is the current one, unless an address space could not be activated.
-/

namespace NasuaOS.Scheduler

open Base Function List

variable {s s' s'' : State} {i : Slot}

/-- The current task is the one that executes. -/
def Current (s : State) : Prop :=
  ∃ i, (s.tasks i).state ≠ .empty ∧ (s.tasks i).id = s.runningTaskId ∧
    (s.tasks i).serial = s.history.executing

/-- Recorded frames belong to tasks created so far. -/
def Recorded (s : State) : Prop :=
  ∀ p ∈ s.history.frames, p.1 < s.history.created ∧ p.2 ≠ 0

/-- Saved frames are frames that their task was left at. -/
def Belonging (s : State) : Prop :=
  ∀ i, (s.tasks i).state ≠ .empty → (s.tasks i).context ≠ 0 →
    ((s.tasks i).serial, (s.tasks i).context) ∈ s.history.frames

/-- Tasks keep who they are and where they were left; slots may be cleared, but not the current
one. -/
structure Keeps (s s' : State) : Prop where
  tasks : ∀ i, (s'.tasks i).state ≠ .empty →
    (s.tasks i).state ≠ .empty ∧ (s'.tasks i).id = (s.tasks i).id ∧
      (s'.tasks i).serial = (s.tasks i).serial ∧ (s'.tasks i).context = (s.tasks i).context
  current : ∀ i, (s.tasks i).state ≠ .empty → (s.tasks i).id = s.runningTaskId →
    (s'.tasks i).state ≠ .empty
  prMap : s'.prMap ⊆ s.prMap
  running : s'.runningTaskId = s.runningTaskId
  created : s'.history.created = s.history.created
  executing : s'.history.executing = s.history.executing
  frames : s'.history.frames = s.history.frames

namespace Keeps

private theorem refl (s : State) : Keeps s s where
  tasks _ hi := ⟨hi, rfl, rfl, rfl⟩
  current _ hi _ := hi
  prMap := Subset.refl _
  running := rfl
  created := rfl
  executing := rfl
  frames := rfl

/-- One change after the other. -/
theorem trans (h : Keeps s s') (h' : Keeps s' s'') : Keeps s s'' where
  tasks i hi := by
    obtain ⟨h1, hid, hserial, hcontext⟩ := h'.tasks i hi
    obtain ⟨h2, hid', hserial', hcontext'⟩ := h.tasks i h1
    exact ⟨h2, hid.trans hid', hserial.trans hserial', hcontext.trans hcontext'⟩
  current i hi hid := by
    have h1 := h.current i hi hid
    apply h'.current i h1
    rw [(h.tasks i h1).2.1, hid, h.running]
  prMap := Subset.trans h'.prMap h.prMap
  running := h'.running.trans h.running
  created := h'.created.trans h.created
  executing := h'.executing.trans h.executing
  frames := h'.frames.trans h.frames

private theorem log (h : Keeps s s') (log : List String) : Keeps s { s' with log := log } := { h with }

private theorem foldl {α : Type} (f : State → α → State) (l : List α) (s : State)
    (hf : ∀ t a, Keeps t (f t a)) : Keeps s (l.foldl f s) := by
  apply foldl_invariant (P := Keeps s) f l s (refl s)
  intro t a _ ht
  exact ht.trans (hf t a)

/-- Replace one task by itself in another state, or clear a slot that is not the current one. -/
private theorem update (s : State) {t : Task} {ids : List Nat} {released : List Release}
    (ht : t.state ≠ .empty → (s.tasks i).state ≠ .empty ∧ t.id = (s.tasks i).id ∧
      t.serial = (s.tasks i).serial ∧ t.context = (s.tasks i).context)
    (hcurrent : (s.tasks i).id = s.runningTaskId → t.state ≠ .empty) (hids : ids ⊆ s.prMap) :
    Keeps s { s with
      tasks := update s.tasks i t
      prMap := ids
      history := { s.history with released := released } } where
  tasks := (forall_update_iff s.tasks fun j t => t.state ≠ .empty →
    (s.tasks j).state ≠ .empty ∧ t.id = (s.tasks j).id ∧ t.serial = (s.tasks j).serial ∧
      t.context = (s.tasks j).context).mpr ⟨ht, fun _ _ hj => ⟨hj, rfl, rfl, rfl⟩⟩
  current := (forall_update_iff s.tasks fun j t => (s.tasks j).state ≠ .empty →
    (s.tasks j).id = s.runningTaskId → t.state ≠ .empty).mpr
      ⟨fun _ => hcurrent, fun _ _ hj _ => hj⟩
  prMap := hids
  running := rfl
  created := rfl
  executing := rfl
  frames := rfl

/-- Reaping spares the current task. -/
theorem reapDeadTasks (s : State) (destroys : Slot → Bool) :
    Keeps s (reapDeadTasks destroys s) := by
  apply Keeps.foldl
  intro t i
  rcases reapSlot_cases destroys t i with ⟨log, heq⟩ | ⟨resources, -, -, hcur, heq⟩
  · rw [heq]
    exact { refl t with }
  · rw [heq]
    exact update t (fun h => absurd rfl h) (fun hid => absurd hid hcur) (Subset.refl _)

/-- Waking changes only states. -/
theorem wakeSleepingTasks (s : State) (now : Nat) : Keeps s (wakeSleepingTasks now s) := by
  apply Keeps.foldl
  intro t i
  rcases wakeSlot_cases now t i with heq | ⟨hs, heq⟩
  · rw [heq]
    exact refl t
  · rw [heq]
    exact update t (fun _ => ⟨by simp [hs], rfl, rfl, rfl⟩) (by simp) (Subset.refl _)

/-- The task that executes stays the current one. -/
theorem keepsCurrent (h : Keeps s s') (hc : Current s) : Current s' := by
  obtain ⟨i, hi, hid, hserial⟩ := hc
  have hi' := h.current i hi hid
  obtain ⟨-, hid', hserial', -⟩ := h.tasks i hi'
  refine ⟨i, hi', ?_, ?_⟩
  · rw [hid', hid, h.running]
  · rw [hserial', hserial, h.executing]

private theorem keepsRecorded (h : Keeps s s') (hr : Recorded s) : Recorded s' := by
  unfold Recorded
  rw [h.frames, h.created]
  exact hr

private theorem keepsBelonging (h : Keeps s s') (hb : Belonging s) : Belonging s' := by
  intro i hi hc
  obtain ⟨hi', -, hserial, hcontext⟩ := h.tasks i hi
  rw [hserial, hcontext, h.frames]
  rw [hcontext] at hc
  exact hb i hi' hc

/-- An effect other than a new task or a new start leaves saved frames alone. -/
theorem of_effect {op : Op} (he : Effect op s s') : Keeps s s' ∨ s' = init s ∨
      ∃ destroys slot task next, Fresh (Scheduler.reapDeadTasks destroys s) slot task ∧
        s' = fillSlot slot task next (Scheduler.reapDeadTasks destroys s) := by
  cases he with
  | quiet log => exact .inl { refl s with }
  | created destroys enrolled =>
    have hr := reapDeadTasks s destroys
    cases enrolled with
    | refused log => exact .inl (hr.log log)
    | filled fresh range => exact .inr (.inr ⟨destroys, _, _, _, fresh, rfl⟩)
  | slept call positive current nonzero =>
    exact .inl (update s (fun _ => ⟨(findTask_some current).2, rfl, rfl, rfl⟩) (by simp)
      (Subset.refl _))
  | @killed i current nonzero finished =>
    have hk : Keeps s (kill i s) :=
      update s (fun _ => ⟨(findTask_some current).2, rfl, rfl, rfl⟩) (by simp) erase_subset
    exact .inl { hk with }
  | init => exact .inr (.inl rfl)

end Keeps

/-- The invariant of runs in which every address space can be activated. -/
structure Tracked (s : State) : Prop where
  sound : Sound s
  current : Current s
  recorded : Recorded s
  belonging : Belonging s

namespace Tracked

section

variable (h : Tracked s)

include h

/-- The task that executes is found under the current id. -/
theorem serial_current (hi : findTask s.tasks s.runningTaskId = some i) :
    (s.tasks i).serial = s.history.executing := by
  obtain ⟨j, hj, hid, hserial⟩ := h.current
  have hi' := findTask_some hi
  rw [h.sound.table.idInj i j hi'.2 hj (hi'.1.trans hid.symm), hserial]

/-- Nothing that the executing task holds was released. -/
theorem unreleased : ∀ r ∈ s.history.released, r.task.serial ≠ s.history.executing := by
  obtain ⟨j, hj, -, hserial⟩ := h.current
  rw [← hserial]
  exact h.sound.ledger.unreleased j hj

private theorem executing_lt : s.history.executing < s.history.created := by
  obtain ⟨j, hj, -, hserial⟩ := h.current
  rw [← hserial]
  exact h.sound.ledger.serialLt j hj

/-- What leaves saved frames alone keeps the invariant. -/
theorem keeps (hs : Sound s') (hk : Keeps s s') : Tracked s' :=
  ⟨hs, hk.keepsCurrent h.current, hk.keepsRecorded h.recorded, hk.keepsBelonging h.belonging⟩

variable {frame : Nat}

private theorem noteFrame (hf : frame ≠ 0) : Tracked (noteFrame frame s) where
  sound := ⟨h.sound.table, h.sound.ledger, h.sound.nextTaskId, h.sound.initialized⟩
  current := h.current
  recorded := by
    intro p hp
    rcases mem_cons.mp hp with rfl | hp
    · exact ⟨h.executing_lt, hf⟩
    · exact h.recorded p hp
  belonging := by
    intro i hi hc
    exact mem_cons_of_mem _ (h.belonging i hi hc)

private theorem saveCurrent (hf : frame ≠ 0) (hnoted : (s.history.executing, frame) ∈ s.history.frames) :
    Tracked (saveCurrent frame s) := by
  have hs := (h.sound.saveCurrent hf).1
  rcases saveCurrent_cases frame s with ⟨i, hi, hr, heq⟩ | ⟨-, space, heq⟩
  · rw [heq] at hs ⊢
    have hserial := h.serial_current hi
    refine ⟨hs, ⟨i, ?_, ?_, ?_⟩, h.recorded, ?_⟩
    · simp [State.setTask]
    · simpa [State.setTask] using (findTask_some hi).1
    · simpa [State.setTask] using hserial
    · apply (forall_update_iff s.tasks fun _ t => t.state ≠ .empty → t.context ≠ 0 →
        (t.serial, t.context) ∈ s.history.frames).mpr
      exact ⟨fun _ _ => hserial ▸ hnoted, fun j _ => h.belonging j⟩
  · rw [heq] at hs ⊢
    exact ⟨hs, h.current, h.recorded, h.belonging⟩

/-- The invariant holds when an interrupt chooses. -/
theorem prepare (hf : frame ≠ 0) (now : Nat) (destroys : Slot → Bool) :
    Tracked (prepare frame now destroys s) := by
  have hsaved := (h.noteFrame hf).saveCurrent hf (mem_cons_self ..)
  apply hsaved.keeps (h.sound.prepare hf now destroys).1
  exact (Keeps.reapDeadTasks _ destroys).trans (Keeps.wakeSleepingTasks _ now)

/-- A task that gets its saved frame is the one that executes. -/
theorem dispatch (hidle : Idle s) {next : Slot} (hready : (s.tasks next).state = .ready)
    (frame : Nat) {activates : Bool} (hok : (s.tasks next).userMode = true → activates = true) :
    Tracked (dispatch next frame activates s).2 := by
  have hs := h.sound.dispatch hidle hready frame activates
  obtain ⟨space, stack, heq⟩ :=
    dispatch_resumes s frame hok (h.sound.context_ne_zero hready)
  rw [heq] at hs ⊢
  refine ⟨hs, ⟨next, ?_, ?_, ?_⟩, h.recorded, ?_⟩
  · simp
  · simp
  · simp
  · apply (forall_update_iff s.tasks fun _ t => t.state ≠ .empty → t.context ≠ 0 →
      (t.serial, t.context) ∈ s.history.frames).mpr
    exact ⟨fun _ => h.belonging next (by simp [hready]), fun j _ => h.belonging j⟩

private theorem fillSlot {slot : Slot} {task : Task} (hfresh : Fresh s slot task) {next : Nat}
    (hs : Sound (fillSlot slot task next s)) :
    Tracked (Scheduler.fillSlot slot task next s) where
  sound := hs
  current := by
    obtain ⟨j, hj, hid, hserial⟩ := h.current
    have hji : j ≠ slot := by
      rintro rfl
      exact hj hfresh.empty
    refine ⟨j, ?_, ?_, ?_⟩
    · simpa only [Scheduler.fillSlot, update_of_ne hji] using hj
    · simpa only [Scheduler.fillSlot, update_of_ne hji] using hid
    · simpa only [Scheduler.fillSlot, update_of_ne hji] using hserial
  recorded := by
    intro p hp
    rcases mem_cons.mp hp with rfl | hp
    · exact ⟨Nat.lt_succ_self _, hfresh.context⟩
    · have hp := h.recorded p hp
      exact ⟨Nat.lt_succ_of_lt hp.1, hp.2⟩
  belonging := by
    apply (forall_update_iff s.tasks fun _ t => t.state ≠ .empty → t.context ≠ 0 →
      (t.serial, t.context) ∈ (s.history.created, task.context) :: s.history.frames).mpr
    refine ⟨fun _ _ => hfresh.serial ▸ mem_cons_self .., fun j _ hj hc => ?_⟩
    exact mem_cons_of_mem _ (h.belonging j hj hc)

end

private theorem init (hs : Sound (init s)) (hr : Recorded s) : Tracked (Scheduler.init s) where
  sound := hs
  current := ⟨0, by simp [Scheduler.init, PrMap.add, capacity], rfl, rfl⟩
  recorded := by
    intro p hp
    have hp := hr p hp
    exact ⟨Nat.lt_succ_of_lt hp.1, hp.2⟩
  belonging := by
    intro j hj hc
    by_cases h0 : j = 0
    · rw [h0] at hc
      exact absurd rfl hc
    · change (update (fun _ => ({} : Task)) 0 _ j).state ≠ .empty at hj
      rw [update_of_ne h0] at hj
      exact absurd rfl hj

/-- Every call but `on_interrupt` keeps the invariant. -/
theorem effect (h : Tracked s) {op : Op} (he : Effect op s s') : Tracked s' := by
  have hs := h.sound.effect he
  rcases Keeps.of_effect he with hk | rfl | ⟨destroys, slot, task, next, hfresh, rfl⟩
  · exact h.keeps hs hk
  · exact Tracked.init hs h.recorded
  · have hr := h.keeps (h.sound.reapDeadTasks destroys) (Keeps.reapDeadTasks s destroys)
    exact hr.fillSlot hfresh hs

end Tracked

/-- The invariant holds after the first `init`. -/
theorem tracked_boot : Tracked (init boot) := by
  apply Tracked.init sound_boot
  intro p hp
  cases hp

end NasuaOS.Scheduler
