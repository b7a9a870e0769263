import NasuaOS.Scheduler.Coherence

/-!
# Stacks of tasks

No stack is lost, and none is released too early: a task that was created is in the table, or its
stack was released.
-/

namespace NasuaOS.Scheduler

open Base Function List

variable {s s' : State} {i : Slot}

/-- What was released, each with the number of its task. -/
def releases (s : State) : List (Resource × Nat) :=
  s.history.released.map fun r => (r.resource, r.task.serial)

/-- The task with a number is in the table. -/
def InTable (s : State) (n : Nat) : Prop := ∃ i, (s.tasks i).state ≠ .empty ∧ (s.tasks i).serial = n

/-- Every task that was created is in the table, or its stack was released. -/
def Accounted (s : State) : Prop :=
  ∀ n < s.history.created, InTable s n ∨ (.stack, n) ∈ releases s

namespace Accounted

private theorem update (h : Accounted s) {t : Task} (htasks : s'.tasks = update s.tasks i t)
    (hcreated : s'.history.created = s.history.created) (hreleases : releases s ⊆ releases s')
    (ht : t.state ≠ .empty ∧ t.serial = (s.tasks i).serial ∨
      (.stack, (s.tasks i).serial) ∈ releases s') : Accounted s' := by
  intro n hn
  rcases h n (hcreated ▸ hn) with ⟨j, hj, rfl⟩ | hr
  · by_cases hji : j = i
    · subst hji
      refine ht.imp_left fun hsame => ⟨j, ?_⟩
      rwa [htasks, update_self]
    · refine .inl ⟨j, ?_⟩
      rw [htasks, update_of_ne hji]
      exact ⟨hj, rfl⟩
  · exact .inr (hreleases hr)

private theorem reapDeadTasks (h : Accounted s) (destroys : Slot → Bool) :
    Accounted (reapDeadTasks destroys s) := by
  apply foldl_invariant _ _ _ h
  intro t i _ ht
  dsimp only [reapSlot]
  split
  · exact ht
  · split
    · split
      · refine ht.update (i := i) rfl rfl ?_ (.inr ?_) <;>
          simp [releases, State.release, State.setTask]
      · exact ht
    · refine ht.update (i := i) rfl rfl ?_ (.inr ?_) <;>
        simp [releases, State.release, State.setTask]

private theorem prepare (h : Accounted s) (frame now : Nat) (destroys : Slot → Bool) :
    Accounted (prepare frame now destroys s) := by
  have hsaved : Accounted (saveCurrent frame (noteFrame frame s)) := by
    rcases saveCurrent_cases frame (noteFrame frame s) with ⟨i, -, -, heq⟩ | ⟨-, space, heq⟩
    · rw [heq]
      exact h.update (i := i) rfl rfl (Subset.refl _) (.inl ⟨by simp, rfl⟩)
    · rw [heq]
      exact h
  apply foldl_invariant _ _ _ (hsaved.reapDeadTasks destroys)
  intro t i _ ht
  rcases wakeSlot_cases now t i with heq | ⟨-, heq⟩
  · rwa [heq]
  · rw [heq]
    exact ht.update rfl rfl (Subset.refl _) (.inl ⟨by simp, rfl⟩)

private theorem enrolled (h : Accounted s) (he : Enrolled s s') : Accounted s' := by
  cases he with
  | refused log => exact h
  | @filled slot task next fresh range =>
    intro n hn
    rcases Nat.lt_succ_iff_lt_or_eq.mp hn with hn | rfl
    · refine (h n hn).imp_left ?_
      rintro ⟨j, hj, hserial⟩
      have hne : j ≠ slot := fun heq => hj (heq ▸ fresh.empty)
      have hsame : (fillSlot slot task next s).tasks j = s.tasks j := update_of_ne hne ..
      exact ⟨j, hsame ▸ hj, hsame ▸ hserial⟩
    · refine .inl ⟨slot, ?_⟩
      rw [show (fillSlot slot task next s).tasks slot = task from update_self .., fresh.ready]
      exact ⟨by simp, fresh.serial⟩

private theorem run (h : Accounted s) (hs : Sound s) {op : Op} (hop : op ≠ .init)
    (hrun : op.run s = some s') : Accounted s' := by
  cases hs.turn_of_run hrun with
  | @interrupt frame now _ destroys _ _ _ hp _ hready =>
    have hprepared := h.prepare frame now destroys
    generalize Scheduler.prepare frame now destroys s = t at hp hready hprepared
    refine hp.dispatch_cases hready _ _ ?_ ?_
    · exact fun _ _ => hprepared.update rfl rfl (Subset.refl _) (.inl ⟨by simp, rfl⟩)
    · exact fun _ _ _ => hprepared.update rfl rfl (Subset.refl _) (.inl ⟨by simp, rfl⟩)
  | effect he =>
    cases he with
    | quiet log => exact h
    | created destroys enrolled => exact (h.reapDeadTasks destroys).enrolled enrolled
    | slept | killed => exact h.update rfl rfl (Subset.refl _) (.inl ⟨by simp, rfl⟩)
    | init call => exact absurd call hop

private theorem runOps (h : Accounted s) (hs : Sound s) (ops : List { op : Op // op ≠ .init }) :
    ∃ s', runOps (ops.map Subtype.val) s = some s' ∧ Sound s' ∧ Accounted s' := by
  induction ops generalizing s with
  | nil => exact ⟨s, rfl, hs, h⟩
  | cons op rest ih =>
    obtain ⟨t, ht, hsound⟩ := hs.run op.1
    obtain ⟨s', hrest, hlast⟩ := ih (h.run hs op.2 ht) hsound
    refine ⟨s', ?_, hlast⟩
    rw [map_cons, Scheduler.runOps, ht]
    exact hrest

end Accounted

/-- In every run behind `init`, with whatever answers: a task that was created is in the table and
nothing of it was released, or it is not and its stack was released exactly once. -/
theorem stacks_accounted (ops : List { op : Op // op ≠ .init }) :
    ∃ s, runOps (ops.map Subtype.val) (init boot) = some s ∧ ∀ n < s.history.created,
      InTable s n ∧ (∀ resource, (resource, n) ∉ releases s) ∨
        ¬InTable s n ∧ (releases s).count (.stack, n) = 1 := by
  have hstart : Accounted (init boot) := by
    intro n hn
    exact .inl ⟨0, by decide, (Nat.lt_one_iff.mp hn).symm⟩
  obtain ⟨s, hrun, hs, haccounted⟩ := hstart.runOps sound_boot ops
  refine ⟨s, hrun, fun n hn => ?_⟩
  have hheld : InTable s n → ∀ resource, (resource, n) ∉ releases s := by
    rintro ⟨i, hused, rfl⟩ resource hmem
    obtain ⟨r, hr, heq⟩ := mem_map.mp hmem
    exact hs.ledger.unreleased i hused r hr (congrArg Prod.snd heq)
  rcases haccounted n hn with htable | hreleased
  · exact .inl ⟨htable, hheld htable⟩
  · exact .inr ⟨fun htable => hheld htable _ hreleased,
      count_eq_one_of_mem hs.ledger.once hreleased⟩

end NasuaOS.Scheduler
