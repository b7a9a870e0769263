import NasuaOS.Virtio.Receive

/-!
# Delivery of received frames

As long as no handler calls `poll` again, the queue counts: the element at `last_used` is the
next one to be handed over, and the ring still holds it. A nested call finds `last_used` where
the outer call left it and hands the same element over a second time.
-/

namespace NasuaOS.Virtio

open List

variable {s s' : World} {k r : Nat}

/-- A written slot. -/
theorem setSlot_same {α : Type} (ring : Nat → α) (slot : Nat) (value : α) :
    setSlot ring slot value slot = value := if_pos rfl

/-- Another slot. -/
theorem setSlot_of_ne {α : Type} (ring : Nat → α) (slot j : Nat) (value : α) (h : j ≠ slot) :
    setSlot ring slot value j = ring j := if_neg h

variable {size : Nat}

private theorem ValidSize.dvd (h : ValidSize size) : 2 ^ 16 % size = 0 := by
  have key : ∀ n < 257, ValidSize n → 2 ^ 16 % n = 0 := by decide +kernel
  exact key size (Nat.lt_succ_of_le h.2.1) h

/-- The slot of an index is the slot of the count it stands for. -/
theorem ValidSize.slot_eq (h : ValidSize size) (n : Nat) : n % 2 ^ 16 % size = n % size :=
  Nat.mod_mod_of_dvd n (Nat.dvd_of_mod_eq_zero h.dvd)

private theorem slot_ne {n j : Nat} (h1 : n < j) (h2 : j < n + size) : n % size ≠ j % size := by
  intro heq
  have hz := Nat.sub_mod_eq_zero_of_mod_eq heq.symm
  rw [Nat.mod_eq_of_lt (by omega)] at hz
  omega

/-- The first `n` completions, in order. -/
def logOf (n : Nat) : List (Option Nat) := (range n).map some

private theorem logOf_succ (n : Nat) : logOf (n + 1) = logOf n ++ [some n] := by
  rw [logOf, range_succ, map_append]
  rfl

private theorem nodup_logOf (n : Nat) : (logOf n).Nodup :=
  Nodup.map (fun _ _ h => Option.some.inj h) nodup_range

/-- Where a single call of `poll` stands, against the number of elements handed over, of
descriptors put back and of advances. -/
inductive Phase : List Activation → Nat → Nat → Nat → Prop
  | idle (a : Nat) : Phase [] a a a
  | polling (a : Nat) : Phase [.polling] a a a
  | handling (a : Nat) (e : UsedElement) : Phase [.handling e (some a)] (a + 1) a a
  | published (a : Nat) : Phase [.published] (a + 1) (a + 1) a

private theorem Phase.bounds {stack : List Activation} {a : Nat} (h : Phase stack k r a) :
    a ≤ r ∧ r ≤ k ∧ k ≤ a + 1 := by
  cases h with
  | idle | polling | handling | published => omega

/-- `k` elements were handed over and `r` descriptors put back, in order, by calls that were not
nested; the completions after them are in the ring. -/
structure Clean (s : World) (k r : Nat) : Prop where
  size : ValidSize s.queue.size
  phase : Phase s.stack k r s.history.advances
  delivered : s.history.delivered = logOf k
  recycled : s.history.recycled = logOf r
  lastUsed : s.queue.lastUsed = s.history.advances % 2 ^ 16
  usedIndex : s.queue.usedIndex = s.history.completed % 2 ^ 16
  bound : k ≤ s.history.completed
  balance : s.owned.length + s.history.completed = s.queue.size + r
  slots : ∀ n, r ≤ n → n < s.history.completed →
    s.history.tags (n % s.queue.size) = some n ∧
      accepted s.queue.size (s.queue.usedRing (n % s.queue.size)) = true

private theorem clean_prepareQueue (h : ValidSize size) :
    Clean (prepareQueue size) 0 0 where
  size := h
  phase := .idle 0
  delivered := rfl
  recycled := rfl
  lastUsed := rfl
  usedIndex := rfl
  bound := Nat.le_refl 0
  balance := by
    simp only [prepareQueue, length_range]
  slots := by
    intro n _ hn
    exact absurd hn (Nat.not_lt_zero n)

private theorem Clean.append (h : Clean s k r) {id length : Nat} (hid : id ∈ s.owned)
    (ha : accepted s.queue.size ⟨id, length⟩ = true) : Clean (append s id length) k r where
  size := h.size
  phase := h.phase
  delivered := h.delivered
  recycled := h.recycled
  lastUsed := h.lastUsed
  usedIndex := by
    simp only [Virtio.append, h.usedIndex]
    omega
  bound := Nat.le_succ_of_le h.bound
  balance := by
    have hl := length_erase_add_one hid
    have hb := h.balance
    simp only [Virtio.append]
    omega
  slots := by
    intro n hr hn
    have hl := length_erase_add_one hid
    have hb := h.balance
    simp only [Virtio.append] at hn ⊢
    rw [h.usedIndex, h.size.slot_eq]
    by_cases hlast : n = s.history.completed
    · rw [hlast, setSlot_same, setSlot_same]
      exact ⟨rfl, ha⟩
    · have hne : n % s.queue.size ≠ s.history.completed % s.queue.size :=
        slot_ne (by omega) (by omega)
      rw [setSlot_of_ne _ _ _ _ hne, setSlot_of_ne _ _ _ _ hne]
      exact h.slots n hr (by omega)

private theorem Clean.next_slot (h : Clean s k r) (ha : s.history.advances = r)
    (hlt : r < s.history.completed) : s.queue.lastUsed ≠ s.queue.usedIndex ∧
      s.history.tags (s.queue.lastUsed % s.queue.size) = some r ∧
      accepted s.queue.size (s.queue.usedRing (s.queue.lastUsed % s.queue.size)) = true := by
  have hb := h.balance
  have hsize := h.size.2.1
  rw [h.lastUsed, h.usedIndex, h.size.slot_eq, ha]
  exact ⟨by omega, h.slots r (Nat.le_refl r) hlt⟩

private theorem Clean.publish {a : Nat} {e : UsedElement} (h : Clean s k r)
    (hs : s.stack = [.handling e (some a)]) :
    Clean { publish s e.id (some a) with stack := [.published] } k (r + 1) := by
  have hp := h.phase
  rw [hs] at hp
  generalize hadv : s.history.advances = adv at hp
  cases hp
  refine ⟨h.size, ?_, h.delivered, ?_, h.lastUsed, h.usedIndex, h.bound, ?_, ?_⟩
  · rw [← hadv]
    exact .published _
  · simp only [Virtio.publish, h.recycled, logOf_succ]
  · have hb := h.balance
    simp only [Virtio.publish, length_append, length_singleton]
    omega
  · intro n hn hc
    exact h.slots n (by omega) hc

private theorem Clean.step (h : Clean s k r) {e : Event} (hs : step s e = some s')
    (hcall : e = .call → s.stack = []) : ∃ k' r', Clean s' k' r' := by
  have hp := h.phase
  cases e with
  | complete id length =>
    simp only [Virtio.step] at hs
    split at hs
    · next hc =>
      cases hs
      exact ⟨k, r, h.append hc.1 hc.2⟩
    · cases hs
  | call =>
    rw [hcall rfl] at hp
    simp only [Virtio.step, hcall rfl] at hs
    cases hs
    cases hp
    exact ⟨_, _, { h with phase := .polling _ }⟩
  | iterate =>
    simp only [Virtio.step] at hs
    generalize hst : s.stack = stack at hp hs
    generalize hadv : s.history.advances = adv at hp
    cases hp with
    | idle | handling | published => cases hs
    | polling =>
      simp only at hs
      split at hs
      · cases hs
        exact ⟨k, k, { h with phase := by rw [hadv]; exact .idle k }⟩
      · next hne =>
        -- The element at the cursor is completion number `k`.
        have hlt : k < s.history.completed := by
          have hb := h.bound
          rw [h.lastUsed, h.usedIndex, hadv] at hne
          omega
        obtain ⟨-, htag, hacc⟩ := h.next_slot hadv hlt
        rw [if_pos hacc] at hs
        cases hs
        refine ⟨k + 1, k, { h with phase := ?_, delivered := ?_, bound := hlt }⟩
        · rw [htag, hadv]
          exact .handling k _
        · simp only [h.delivered, htag, logOf_succ]
  | handlerReturn =>
    simp only [Virtio.step] at hs
    generalize hst : s.stack = stack at hp hs
    cases hp with
    | idle | polling | published => cases hs
    | handling a e =>
      cases hs
      exact ⟨_, _, h.publish hst⟩
  | advance =>
    simp only [Virtio.step] at hs
    generalize hst : s.stack = stack at hp hs
    generalize hadv : s.history.advances = adv at hp
    cases hp with
    | idle | polling | handling => cases hs
    | published =>
      cases hs
      refine ⟨adv + 1, adv + 1, { h with phase := ?_, lastUsed := ?_ }⟩
      · simp only [hadv]
        exact .polling (adv + 1)
      · simp only [h.lastUsed]
        omega

/-- A nested call of `poll` has begun and not yet taken an element. -/
def Pending (s : World) : Prop :=
  ∃ e a k r, s.stack = [.polling, .handling e (some a)] ∧
    Clean { s with stack := [.handling e (some a)] } k r

/-- Something was handed over twice. -/
def Repeated (s : World) : Prop := ¬ s.history.delivered.Nodup

private theorem delivered_grows {e : Event} (hs : step s e = some s') :
    s.history.delivered <+: s'.history.delivered := by
  cases e with
  | complete id length | handlerReturn | advance =>
    simp only [step] at hs
    split at hs
    · cases hs
      exact prefix_rfl
    · cases hs
  | call =>
    simp only [step] at hs
    split at hs
    · cases hs
      exact prefix_rfl
    · cases hs
      exact prefix_rfl
    · cases hs
  | iterate =>
    simp only [step] at hs
    split at hs
    · split at hs
      · cases hs
        exact prefix_rfl
      · split at hs
        · cases hs
          exact prefix_append _ _
        · split at hs
          · cases hs
            exact prefix_rfl
          · cases hs
            exact prefix_rfl
    · cases hs

private theorem Repeated.step (h : Repeated s) {e : Event} (hs : step s e = some s') : Repeated s' :=
  fun hn => h (hn.sublist (delivered_grows hs).sublist)

private theorem Pending.step (h : Pending s) {e : Event} (hs : step s e = some s') :
    Pending s' ∨ Repeated s' := by
  obtain ⟨elem, a, k, r, hst, hc⟩ := h
  cases e with
  | complete id length =>
    simp only [Virtio.step] at hs
    split at hs
    · next hcond =>
      cases hs
      exact .inl ⟨elem, a, k, r, hst, hc.append hcond.1 hcond.2⟩
    · cases hs
  | call | handlerReturn | advance =>
    simp only [Virtio.step, hst] at hs
    cases hs
  | iterate =>
    right
    have hp := hc.phase
    generalize hadv : s.history.advances = adv at hp
    cases hp
    obtain ⟨hne, htag, hacc⟩ := hc.next_slot hadv hc.bound
    simp only at hne htag hacc
    simp only [Virtio.step, hst, if_neg hne, if_pos hacc, htag] at hs
    cases hs
    have hd := hc.delivered
    simp only at hd
    simp only [Repeated, hd, logOf_succ]
    intro hn
    rw [nodup_append] at hn
    exact hn.2.2 (some a) (by simp) (some a) (by simp) rfl

private theorem Clean.nested (h : Clean s k r) (hne : s.stack ≠ []) (hs : Virtio.step s .call = some s') :
    Pending s' := by
  have hp := h.phase
  simp only [Virtio.step] at hs
  generalize hst : s.stack = stack at hp hs hne
  cases hp with
  | idle => exact absurd rfl hne
  | polling | published => cases hs
  | handling a e =>
    cases hs
    refine ⟨e, s.history.advances, s.history.advances + 1, s.history.advances, rfl, ?_⟩
    simp only [← hst]
    exact h

private theorem run_of_nested (events : List Event) (h : Pending s ∨ Repeated s)
    (hr : run events s = some s') : Pending s' ∨ Repeated s' := by
  induction events generalizing s with
  | nil =>
    cases hr
    exact h
  | cons e rest ih =>
    simp only [run, Option.bind_eq_some_iff] at hr
    obtain ⟨t, ht, hr⟩ := hr
    rcases h with hp | hd
    · exact ih (hp.step ht) hr
    · exact ih (.inr (hd.step ht)) hr

private theorem run_cases (events : List Event) (h : Clean s k r) (hr : run events s = some s') :
    (Unnested events s ∧ ∃ k' r', Clean s' k' r') ∨
      (¬ Unnested events s ∧ (Pending s' ∨ Repeated s')) := by
  induction events generalizing s k r with
  | nil =>
    cases hr
    exact .inl ⟨trivial, k, r, h⟩
  | cons e rest ih =>
    simp only [run, Option.bind_eq_some_iff] at hr
    obtain ⟨t, ht, hr⟩ := hr
    by_cases hcall : e = .call → s.stack = []
    · obtain ⟨k1, r1, hc⟩ := h.step ht hcall
      rcases ih hc hr with ⟨hu, hclean⟩ | ⟨hu, hbad⟩
      · refine .inl ⟨⟨hcall, ?_⟩, hclean⟩
        intro t' ht'
        rw [ht] at ht'
        cases ht'
        exact hu
      · exact .inr ⟨fun hn => hu (hn.2 t ht), hbad⟩
    · refine .inr ⟨fun hn => hcall hn.1, ?_⟩
      rw [Classical.not_imp] at hcall
      obtain ⟨rfl, hne⟩ := hcall
      exact run_of_nested rest (.inl (h.nested hne ht)) hr

/-- Elements are handed over in order of completion and put back in that order, each at most
once and none ahead of its completion. -/
def InOrder (s : World) : Prop :=
  ∃ k r, s.history.delivered = logOf k ∧ s.history.recycled = logOf r ∧
    s.history.advances ≤ r ∧ r ≤ k ∧ k ≤ s.history.advances + 1 ∧ k ≤ s.history.completed ∧
    s.queue.lastUsed = s.history.advances % 2 ^ 16

private theorem Clean.inOrder (h : Clean s k r) : InOrder s := by
  obtain ⟨h1, h2, h3⟩ := h.phase.bounds
  exact ⟨k, r, h.delivered, h.recycled, h1, h2, h3, h.bound, h.lastUsed⟩

private theorem Clean.exactlyOnce (h : Clean s k r) (hidle : s.stack = [])
    (hdrained : s.queue.lastUsed = s.queue.usedIndex) : ExactlyOnce s.history := by
  have hp := h.phase
  have hb := h.balance
  have hbound := h.bound
  have hsize := h.size.2.1
  rw [h.lastUsed, h.usedIndex] at hdrained
  rw [hidle] at hp
  generalize hadv : s.history.advances = a at hp hdrained
  cases hp
  have hk : k = s.history.completed := by omega
  subst hk
  refine ⟨?_, ?_, hadv⟩
  · rw [h.delivered]
    exact Perm.refl _
  · rw [h.recycled]
    exact Perm.refl _

/-- Nothing is left in the used ring. -/
def Drained (s : World) : Prop := s.queue.lastUsed = s.queue.usedIndex

/-- Turns that a call of `poll` still needs when the device is quiet. -/
def remaining (s : World) : Nat :=
  match s.stack with
  | [] => 0
  | .polling :: _ => 4 * (s.history.completed - s.history.advances) + 1
  | .handling _ _ :: _ => 4 * (s.history.completed - s.history.advances)
  | .published :: _ => 4 * (s.history.completed - s.history.advances) - 1

private theorem Clean.progress (h : Clean s k r) (hne : s.stack ≠ []) :
    ∃ e s', e ≠ .call ∧ Virtio.step s e = some s' ∧ remaining s' < remaining s ∧
      s'.history.completed = s.history.completed ∧ (s'.stack = [] → Drained s') := by
  have hp := h.phase
  have hbound := h.bound
  generalize hst : s.stack = stack at hp hne
  generalize hadv : s.history.advances = a at hp
  cases hp with
  | idle => exact absurd rfl hne
  | polling =>
    by_cases hd : Drained s
    · refine ⟨.iterate, { s with stack := [] }, by decide, ?_, ?_, rfl, fun _ => hd⟩
      · rw [Drained] at hd
        simp only [Virtio.step, hst, if_pos hd]
      · simp only [remaining, hst]
        omega
    · have hlt : k < s.history.completed := by
        rw [Drained, h.lastUsed, h.usedIndex, hadv] at hd
        omega
      obtain ⟨hne', htag, hacc⟩ := h.next_slot hadv hlt
      have ht : ∃ t, Virtio.step s .iterate = some t ∧ remaining t < remaining s ∧
          t.history.completed = s.history.completed ∧ t.stack ≠ [] := by
        simp only [Virtio.step, hst, if_neg hne', if_pos hacc, Option.some.injEq, exists_eq_left']
        refine ⟨?_, trivial, by simp⟩
        simp only [remaining, hst]
        omega
      obtain ⟨t, hs, hlt', hcomp, hstack⟩ := ht
      exact ⟨.iterate, t, by decide, hs, hlt', hcomp, fun hc => absurd hc hstack⟩
  | handling e =>
    have ht : ∃ t, Virtio.step s .handlerReturn = some t ∧ remaining t < remaining s ∧
        t.history.completed = s.history.completed ∧ t.stack ≠ [] := by
      simp only [Virtio.step, hst, Option.some.injEq, exists_eq_left']
      refine ⟨?_, rfl, by simp⟩
      simp only [remaining, hst, Virtio.publish]
      omega
    obtain ⟨t, hs, hlt', hcomp, hstack⟩ := ht
    exact ⟨.handlerReturn, t, by decide, hs, hlt', hcomp, fun hc => absurd hc hstack⟩
  | published =>
    have ht : ∃ t, Virtio.step s .advance = some t ∧ remaining t < remaining s ∧
        t.history.completed = s.history.completed ∧ t.stack ≠ [] := by
      simp only [Virtio.step, hst, Option.some.injEq, exists_eq_left']
      refine ⟨?_, trivial, by simp⟩
      simp only [remaining, hst]
      omega
    obtain ⟨t, hs, hlt', hcomp, hstack⟩ := ht
    exact ⟨.advance, t, by decide, hs, hlt', hcomp, fun hc => absurd hc hstack⟩

private theorem Clean.finishes (h : Clean s k r) (n : Nat) (hn : remaining s ≤ n)
    (hd : s.stack = [] → Drained s) :
    ∃ events s', run events s = some s' ∧ Unnested events s ∧ s'.stack = [] ∧ Drained s' ∧
      s'.history.completed = s.history.completed := by
  induction n generalizing s k r with
  | zero =>
    by_cases hne : s.stack = []
    · exact ⟨[], s, rfl, trivial, hne, hd hne, rfl⟩
    · obtain ⟨e, t, -, -, hlt, -, -⟩ := h.progress hne
      omega
  | succ n ih =>
    by_cases hne : s.stack = []
    · exact ⟨[], s, rfl, trivial, hne, hd hne, rfl⟩
    · obtain ⟨e, t, hcall, ht, hlt, hcomp, hdt⟩ := h.progress hne
      obtain ⟨k1, r1, h1⟩ := h.step ht (fun he => absurd he hcall)
      obtain ⟨events, s', hrun, hun, hidle, hdr, hc⟩ := ih h1 (by omega) hdt
      refine ⟨e :: events, s', ?_, ⟨fun he => absurd he hcall, ?_⟩, hidle, hdr, by rw [hc, hcomp]⟩
      · rw [run, ht]
        exact hrun
      · intro t' ht'
        rw [ht] at ht'
        cases ht'
        exact hun

private theorem Clean.drains (h : Clean s k r) :
    ∃ events s', run events s = some s' ∧ Unnested events s ∧ s'.stack = [] ∧ Drained s' ∧
      s'.history.completed = s.history.completed := by
  by_cases hidle : s.stack = []
  · -- One more call of `poll` picks up what came since the last one.
    have ht : Virtio.step s .call = some { s with stack := [.polling] } := by
      simp only [Virtio.step, hidle]
    obtain ⟨k1, r1, h1⟩ := h.step ht (fun _ => hidle)
    obtain ⟨events, s', hrun, hun, hi, hd, hc⟩ :=
      h1.finishes _ le_rfl (fun hn => by cases hn)
    refine ⟨.call :: events, s', ?_, ⟨fun _ => hidle, ?_⟩, hi, hd, hc⟩
    · rw [run, ht]
      exact hrun
    · intro t' ht'
      rw [ht] at ht'
      cases ht'
      exact hun
  · exact h.finishes _ le_rfl (fun hn => absurd hn hidle)

/-- For every queue size, every order of turns and every receive handler: a run without nested
calls hands over and puts back in order, at most once, in every state it reaches, and comes to
rest with everything handled; and a run that has come to rest with the ring drained handled
every element exactly once if and only if no call of `poll` was nested. -/
theorem exactly_once_iff_unnested {size : Nat} (hsize : ValidSize size) (events : List Event)
    (h : run events (prepareQueue size) = some s) :
    (Unnested events (prepareQueue size) → InOrder s ∧
      ∃ more s', run more s = some s' ∧ s'.history.completed = s.history.completed ∧
        ExactlyOnce s'.history) ∧
    (s.stack = [] → Drained s → (ExactlyOnce s.history ↔ Unnested events (prepareQueue size))) := by
  have hcases := run_cases events (clean_prepareQueue hsize) h
  constructor
  · intro hu
    rcases hcases with ⟨-, k, r, hc⟩ | ⟨hn, -⟩
    · refine ⟨hc.inOrder, ?_⟩
      obtain ⟨more, s', hrun, hmore, hidle, hd, hcomp⟩ := hc.drains
      rcases run_cases more hc hrun with ⟨-, k', r', hc'⟩ | ⟨hn, -⟩
      · exact ⟨more, s', hrun, hcomp, hc'.exactlyOnce hidle hd⟩
      · exact absurd hmore hn
    · exact absurd hu hn
  · intro hidle hd
    rcases hcases with ⟨hu, k, r, hc⟩ | ⟨hn, hbad⟩
    · exact ⟨fun _ => hu, fun _ => hc.exactlyOnce hidle hd⟩
    · refine ⟨?_, fun hu => absurd hu hn⟩
      intro hex
      rcases hbad with ⟨e, a, k, r, hst, -⟩ | hrep
      · rw [hidle] at hst
        cases hst
      · exact absurd (hex.delivered.nodup_iff.mpr (nodup_logOf _)) hrep

/-- Two frames in the buffers 1 and 0, received without a nested call; the second one arrives while
the first one is handled. -/
def twoFrames : List Event :=
  [.complete 1 60, .call, .iterate, .complete 0 64, .handlerReturn, .advance, .iterate,
    .handlerReturn, .advance, .iterate]

/-- Each of the two frames is handled exactly once. -/
theorem exactly_once_twoFrames :
    ∃ s, run twoFrames (prepareQueue 8) = some s ∧ s.stack = [] ∧ Drained s ∧
      s.history.completed = 2 ∧ ExactlyOnce s.history := by
  have hsize : ValidSize 8 := by decide
  have hu : Unnested twoFrames (prepareQueue 8) := by decide
  refine ⟨_, rfl, rfl, rfl, rfl, ?_⟩
  exact ((exactly_once_iff_unnested hsize twoFrames rfl).2 rfl rfl).mpr hu

/-- A handler that polls gets its own frame again before it returns. -/
theorem nested_poll_delivers_twice :
    ∃ size events s, ValidSize size ∧ run events (prepareQueue size) = some s ∧
      s.history.completed = 1 ∧ s.history.delivered = [some 0, some 0] :=
  ⟨8, [.complete 0 60, .call, .iterate, .call, .iterate], _, by decide, rfl, rfl, rfl⟩

end NasuaOS.Virtio
