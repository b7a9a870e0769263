import NasuaOS.Scheduler.Coherence

/-!
# Sleep and wake-up

`src/kernel_64bit/src/system/scheduler/functions/scheduler.cpp:103–119,344–368`. The timer counts
ticks modulo 2^64, and a deadline is reached when it lies less than 2^63 ticks back. From the
interrupt that `sleep_ticks` raises on, no call changes the slot of the sleeper before its deadline,
whatever other tasks do and whether or not the counter wraps.
-/

namespace NasuaOS.Scheduler

open Base Function

variable {s s' : State} {i : Slot}

variable {ticks frame now : Nat}

private theorem deadline_reached_iff (start : Nat) {elapsed : Nat} (hticks : ticks < 2 ^ 63)
    (helapsed : elapsed < 2 ^ 63) : tickDeadlineReached ((start + elapsed) % 2 ^ 64)
      ((start % 2 ^ 64 + ticks) % 2 ^ 64) = true ↔ ticks ≤ elapsed := by
  rw [tickDeadlineReached, decide_eq_true_eq]
  omega

private theorem effect_spares {op : Op} (hinit : op ≠ .init) (hlive : (s.tasks i).state.Live)
    (hcurrent : s.runningTaskId ≠ (s.tasks i).id) (he : Effect op s s') :
    s'.tasks i = s.tasks i ∧ s'.runningTaskId = s.runningTaskId := by
  have hother : ∀ j, findTask s.tasks s.runningTaskId = some j → i ≠ j := by
    rintro j hj rfl
    exact hcurrent (findTask_some hj).1.symm
  cases he with
  | quiet => exact ⟨rfl, rfl⟩
  | created destroys enrolled =>
    have hreaped := reapDeadTasks_reaped destroys s
    generalize reapDeadTasks destroys s = r at enrolled hreaped
    have hsame := hreaped.eq_of_ne_dead hlive.2
    cases enrolled with
    | refused => exact ⟨hsame, hreaped.runningTaskId⟩
    | filled fresh =>
      refine ⟨(update_of_ne ?_ ..).trans hsame, hreaped.runningTaskId⟩
      rintro rfl
      exact hlive.1 (hsame ▸ fresh.empty)
  | slept _ _ current | killed current => exact ⟨update_of_ne (hother _ current) .., rfl⟩
  | init call => exact absurd call hinit

private theorem prepare_sleeping (h : Sound s) (hsleeping : (s.tasks i).state = .sleeping)
    (hframe : frame ≠ 0) (now : Nat) (destroys : Slot → Bool) :
    (prepare frame now destroys s).tasks i =
      if tickDeadlineReached now (s.tasks i).wakeTick then { s.tasks i with state := .ready }
      else s.tasks i := by
  have hprepared := prepare_task h hframe now destroys i
  generalize (prepare frame now destroys s).tasks i = task at hprepared ⊢
  cases hprepared with
  | same hsame =>
    rw [wakeTask] at hsame
    split
    · next hreached =>
      rw [if_pos ⟨hsleeping, hreached⟩] at hsame
      exact hsame.symm
    · rfl
  | saved hrunning =>
    rw [hsleeping] at hrunning
    cases hrunning
  | woken _ hreached => rw [if_pos hreached]
  | reaped hdead =>
    rw [hsleeping] at hdead
    cases hdead

private theorem dispatch_spares (h : Sound s) {next : Slot} (hready : (s.tasks next).state = .ready)
    (hne : i ≠ next) (frame : Nat) (activates : Bool) :
    (dispatch next frame activates s).2.tasks i = s.tasks i ∧
      (dispatch next frame activates s).2.runningTaskId = (s.tasks next).id := by
  refine h.dispatch_cases hready frame activates ?_ ?_
  · exact fun _ _ => ⟨update_of_ne hne .., rfl⟩
  · exact fun _ _ _ => ⟨update_of_ne hne .., rfl⟩

private theorem onInterrupt_spares (h : Sound s) (hsleeping : (s.tasks i).state = .sleeping)
    (hframe : frame ≠ 0) (hearly : tickDeadlineReached now (s.tasks i).wakeTick = false)
    (activates : Bool) (destroys : Slot → Bool) : selected frame now destroys s ≠ some i ∧
      (onInterrupt frame now activates destroys s).2.tasks i = s.tasks i ∧
      (onInterrupt frame now activates destroys s).2.runningTaskId ≠ (s.tasks i).id := by
  have hsame := prepare_sleeping h hsleeping hframe now destroys
  rw [hearly, if_neg Bool.false_ne_true] at hsame
  obtain ⟨next, hn, hp, -, hready, heq⟩ := onInterrupt_eq h hframe now activates destroys
  have hne : i ≠ next := by
    rintro rfl
    rw [hsame, hsleeping] at hready
    cases hready
  obtain ⟨htask, hid⟩ := dispatch_spares hp hready hne frame activates
  rw [heq, hn, htask, hid, hsame]
  refine ⟨fun heq => hne (Option.some.inj heq).symm, rfl, fun hid => hne ?_⟩
  rw [← hsame] at hid
  exact (hp.table.idInj next i (by simp [hready]) (by simp [hsame, hsleeping]) hid).symm

/-- A call before a number of ticks has elapsed since a tick; interrupts have a frame. -/
def Before (start ticks : Nat) : Op → Prop
  | .init => False
  | .onInterrupt frame now _ _ => frame ≠ 0 ∧ ∃ elapsed < ticks, now = (start + elapsed) % 2 ^ 64
  | _ => True

/-- A call is an interrupt. -/
def Op.IsInterrupt : Op → Prop
  | .onInterrupt .. => True
  | _ => False

/-- An interrupt chooses the task of a slot. -/
def Chooses (i : Slot) (s : State) : Op → Prop
  | .onInterrupt frame now _ destroys => selected frame now destroys s = some i
  | _ => False

/-- A sleeper with its deadline. -/
structure Asleep (i : Slot) (task : Task) (start ticks : Nat) (s : State) : Prop where
  sound : Sound s
  slot : s.tasks i = task
  sleeping : task.state = .sleeping
  deadline : task.wakeTick = (start % 2 ^ 64 + ticks) % 2 ^ 64

namespace Asleep

variable {task : Task} {start ticks : Nat}

private theorem run (h : Asleep i task start ticks s) (hticks : ticks < 2 ^ 63) {op : Op}
    (hop : Before start ticks op) (hcurrent : op.IsInterrupt ∨ s.runningTaskId ≠ task.id) :
    ∃ s', op.run s = some s' ∧ Asleep i task start ticks s' ∧ s'.runningTaskId ≠ task.id ∧
      ¬Chooses i s op := by
  obtain ⟨s', hrun, hsound⟩ := h.sound.run op
  refine ⟨s', hrun, ?_⟩
  have hsleeping : (s.tasks i).state = .sleeping := by rw [h.slot]; exact h.sleeping
  by_cases hint : op.IsInterrupt
  · cases op with
    | onInterrupt frame now activates destroys =>
      obtain ⟨hframe, elapsed, hearly, rfl⟩ := hop
      have hdeadline := Bool.eq_false_iff.mpr
        (mt (deadline_reached_iff start hticks (by omega)).mp (Nat.not_le.mpr hearly))
      rw [← h.deadline, ← h.slot] at hdeadline
      obtain ⟨hchoice, htask, hid⟩ :=
        onInterrupt_spares h.sound hsleeping hframe hdeadline activates destroys
      cases hrun
      rw [h.slot] at htask hid
      exact ⟨⟨hsound, htask, h.sleeping, h.deadline⟩, hid, hchoice⟩
    | _ => exact hint.elim
  · have hid := hcurrent.resolve_left hint
    have hinit : op ≠ .init := by
      rintro rfl
      exact hop
    cases h.sound.turn_of_run hrun with
    | effect he =>
      obtain ⟨htask, hid'⟩ := effect_spares hinit (i := i) (hsleeping ▸ TaskState.live_sleeping)
        (by rwa [h.slot]) he
      refine ⟨⟨hsound, htask.trans h.slot, h.sleeping, h.deadline⟩, hid' ▸ hid, ?_⟩
      cases op with
      | onInterrupt => exact absurd trivial hint
      | _ => exact id
    | interrupt => exact absurd trivial hint

private theorem runOps (h : Asleep i task start ticks s) (hticks : ticks < 2 ^ 63) {calls : List Op}
    (hcalls : ∀ op ∈ calls, Before start ticks op)
    (hcurrent : (∀ op ∈ calls.head?, op.IsInterrupt) ∨ s.runningTaskId ≠ task.id) :
    ∃ t, runOps calls s = some t ∧ Asleep i task start ticks t ∧
      Throughout (fun s op => ¬Chooses i s op) calls s := by
  induction calls generalizing s with
  | nil => exact ⟨s, rfl, h, trivial⟩
  | cons op rest ih =>
    obtain ⟨hop, hrest⟩ := List.forall_mem_cons.mp hcalls
    obtain ⟨s', hrun, h', hid, hchoice⟩ :=
      h.run hticks hop (hcurrent.imp_left fun hfirst => hfirst op rfl)
    obtain ⟨t, ht, hasleep, hchoices⟩ := ih h' hrest (.inr hid)
    refine ⟨t, ?_, hasleep, hchoice, fun s'' hs'' => ?_⟩
    · rw [Scheduler.runOps, hrun]
      exact ht
    · rw [hrun, Option.some.injEq] at hs''
      subst hs''
      exact hchoices

end Asleep

private theorem Sound.sleepTicks_asleep (h : Sound s)
    (hcurrent : findTask s.tasks s.runningTaskId = some i) (hid : (s.tasks i).id ≠ 1) (start : Nat)
    (hticks : ticks ≠ 0) : Asleep i { s.tasks i with
        wakeTick := (start % 2 ^ 64 + ticks) % 2 ^ 64, state := .sleeping } start ticks
      (sleepTicks ticks (start % 2 ^ 64) s) := by
  have hcall : sleepTicks ticks (start % 2 ^ 64) s = s.setTask i { s.tasks i with
      wakeTick := (start % 2 ^ 64 + ticks) % 2 ^ 64, state := .sleeping } := by
    rw [sleepTicks, if_neg hticks, hcurrent]
    exact if_neg hid
  obtain ⟨t, ht, hsound⟩ := h.run (.sleepTicks ticks (start % 2 ^ 64))
  cases ht
  refine ⟨hsound, ?_, rfl, rfl⟩
  rw [hcall]
  exact update_self ..

/-- A current task other than the kernel's that sleeps for some ticks is not chosen before they have
elapsed, whatever is called after the interrupt of `sleep_ticks`, and is ready at the first
interrupt behind them. -/
theorem sleeper_wakes {ops : List Op} (hrun : runOps ops (init boot) = some s)
    (hcurrent : findTask s.tasks s.runningTaskId = some i) (hid : (s.tasks i).id ≠ 1)
    {start ticks : Nat} (hticks : 1 ≤ ticks ∧ ticks < 2 ^ 63) {calls : List Op}
    (hcalls : ∀ op ∈ calls, Before start ticks op) (hfirst : ∀ op ∈ calls.head?, op.IsInterrupt)
    {frame elapsed : Nat} (hframe : frame ≠ 0) (helapsed : ticks ≤ elapsed ∧ elapsed < 2 ^ 63)
    (destroys : Slot → Bool) :
    ∃ t, runOps calls (sleepTicks ticks (start % 2 ^ 64) s) = some t ∧
      Throughout (fun s op => ¬Chooses i s op) calls (sleepTicks ticks (start % 2 ^ 64) s) ∧
      ((prepare frame ((start + elapsed) % 2 ^ 64) destroys t).tasks i).state = .ready ∧
      ((prepare frame ((start + elapsed) % 2 ^ 64) destroys t).tasks i).id = (s.tasks i).id := by
  obtain ⟨s₀, hs₀, hs⟩ := sound_boot.runOps ops
  rw [hrun, Option.some.injEq] at hs₀
  subst hs₀
  have hasleep := hs.sleepTicks_asleep hcurrent hid start (Nat.one_le_iff_ne_zero.mp hticks.1)
  obtain ⟨t, ht, h, hchoices⟩ := hasleep.runOps hticks.2 hcalls (.inl hfirst)
  refine ⟨t, ht, hchoices, ?_⟩
  have hreached := (deadline_reached_iff start hticks.2 helapsed.2).mpr helapsed.1
  rw [← h.deadline, ← h.slot] at hreached
  rw [prepare_sleeping h.sound (by rw [h.slot]) hframe _ destroys, if_pos hreached, h.slot]
  exact ⟨rfl, rfl⟩

/-- A task runs that sleeps across the end of the tick counter. -/
theorem sleeper_wakes_wrapped : ∃ s t,
    runOps [.createTask 1 0 (fun _ => true) (some block), .onInterrupt 256 0 true fun _ => true]
      (init boot) = some s ∧
    runOps [.onInterrupt 512 (2 ^ 64 - 2) true fun _ => true, .onInterrupt 768 1 true fun _ => true]
      (sleepTicks 5 (2 ^ 64 - 2) s) = some t ∧
    ((prepare 1024 4 (fun _ => true) t).tasks 1).state = .ready := by
  have h : (runOps [.createTask 1 0 (fun _ => true) (some block),
      .onInterrupt 256 0 true fun _ => true] (init boot)).any (fun s =>
        decide (findTask s.tasks s.runningTaskId = some 1 ∧ (s.tasks 1).id ≠ 1)) = true := by
    decide +kernel
  obtain ⟨s, hs, h⟩ := (Option.any_eq_true ..).mp h
  obtain ⟨hcurrent, hid⟩ := of_decide_eq_true h
  have hcalls : ∀ op ∈ [Op.onInterrupt 512 (2 ^ 64 - 2) true fun _ => true,
      .onInterrupt 768 1 true fun _ => true], Before (2 ^ 64 - 2) 5 op := by
    refine List.forall_mem_cons.mpr ⟨⟨by decide, 0, by decide, rfl⟩, ?_⟩
    exact List.forall_mem_singleton.mpr ⟨by decide, 3, by decide, rfl⟩
  obtain ⟨t, ht, -, hready, -⟩ := sleeper_wakes hs hcurrent hid (by decide) hcalls
    (fun op hop => by cases hop; trivial) (show 1024 ≠ 0 by decide)
    (show 5 ≤ 6 ∧ 6 < 2 ^ 63 by decide) fun _ => true
  rw [show (2 ^ 64 - 2) % 2 ^ 64 = 2 ^ 64 - 2 by decide] at ht
  rw [show (2 ^ 64 - 2 + 6) % 2 ^ 64 = 4 by decide] at hready
  exact ⟨s, t, hs, ht, hready⟩

/-- The kernel's task is chosen while it waits in `Timer::sleep`. -/
theorem kernel_sleeps_chosen :
    findTask (init boot).tasks (init boot).runningTaskId = some 0 ∧
      Before 0 5 (.onInterrupt 256 1 true fun _ => true) ∧
      Chooses 0 (sleepTicks 5 0 (init boot)) (.onInterrupt 256 1 true fun _ => true) := by
  refine ⟨by decide, ⟨by decide, 1, by decide, rfl⟩, ?_⟩
  show selected 256 1 (fun _ => true) (sleepTicks 5 0 (init boot)) = some 0
  decide +kernel

end NasuaOS.Scheduler
