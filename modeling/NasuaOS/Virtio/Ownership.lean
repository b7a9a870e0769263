import NasuaOS.Base.Ring
import NasuaOS.Virtio.Transmit
import Mathlib.Data.List.GetD
import Mathlib.Data.List.Perm.Subperm

/-!
# Who owns a transmit descriptor

Every busy descriptor is in exactly one place: on the available ring, with the device, on the used
ring, or in the hands of `send`. The places hold no more descriptors than the ring has slots, so no
slot is overwritten before it is read and the 16-bit indices tell the counts apart.
-/

namespace NasuaOS.Virtio.Transmit

open Base Function List

variable {s s' : World} {size t r : Nat} {waits returned : List Nat}

/-- The descriptor that is filled but not on the ring. -/
def Phase.listed : Phase → List Nat
  | .listing descriptor _ => [descriptor]
  | _ => []

/-- The four places of a descriptor. -/
def places (s : World) (waits returned : List Nat) : List Nat :=
  waits ++ s.held ++ returned ++ s.phase.listed

/-- The state against its counts: `waits` is on the available ring behind `t` descriptors that were
taken, `returned` on the used ring behind `r` that were reclaimed. -/
structure Sound (s : World) (waits returned : List Nat) (t r : Nat) : Prop where
  size : ValidSize s.queue.size
  busy : ∀ d, (places s waits returned).count d = (s.busy d).toNat
  bounded : ∀ d, s.busy d = true → d < s.queue.size
  deviceIndex : s.deviceIndex = t % 2 ^ 16
  availableIndex : s.queue.availableIndex = (t + waits.length) % 2 ^ 16
  lastUsed : s.queue.lastUsed = r % 2 ^ 16
  usedIndex : s.queue.usedIndex = (r + returned.length) % 2 ^ 16
  availableRing : Window s.queue.availableRing s.queue.size t waits
  usedRing : Window (fun k => (s.queue.usedRing k).id) s.queue.size r returned
  frames : s.history.read ++ waits.map (contents s) = s.history.accepted.map withHeader
  listing : ∀ d frame, s.phase = .listing d frame → contents s d = withHeader frame
  result : s.phase ≠ .idle → s.result = none

/-- What one turn does, with what it needs. -/
inductive Turn (s : World) : Event → World → Prop
  | refused {frame : Option (List UInt8)} (hidle : s.phase = .idle)
    (hsend : sendable s frame = false) : Turn s (.call frame) { s with result := some false }
  | called {bytes : List UInt8} (hidle : s.phase = .idle) (hsend : sendable s (some bytes) = true) :
    Turn s (.call (some bytes)) { s with phase := .reclaiming bytes, result := none }
  | reclaimed (hne : s.queue.lastUsed ≠ s.queue.usedIndex) : Turn s .reclaim (reclaim s)
  | filled {frame : List UInt8} {d : Nat} (hphase : s.phase = .reclaiming frame)
    (hd : findDescriptor s = some d) : Turn s .search (fill s d frame)
  | failed {frame : List UInt8} (hphase : s.phase = .reclaiming frame)
    (heq : s.queue.lastUsed = s.queue.usedIndex) (hnone : findDescriptor s = none) :
    Turn s .search
      { s with failures := (s.failures + 1) % 2 ^ 32, phase := .idle, result := some false }
  | listed {frame : List UInt8} {d : Nat} (hphase : s.phase = .listing d frame) :
    Turn s .list (list s d frame)
  | taken (hne : s.deviceIndex ≠ s.queue.availableIndex) : Turn s .take (take s)
  | completed {id length : Nat} (hid : id ∈ s.held) :
    Turn s (.complete id length) (complete s id length)

private theorem step_turn {e : Event} (hs : step s e = some s') : Turn s e s' := by
  cases e with
  | call frame =>
    simp only [step] at hs
    split at hs
    · next hidle =>
      split at hs
      · next hsend =>
        cases hs
        exact .called hidle hsend
      · next hsend =>
        cases hs
        exact .refused hidle (by simpa using hsend)
    · next hidle =>
      cases hs
      exact .refused hidle rfl
    · cases hs
  | reclaim =>
    simp only [step] at hs
    split at hs
    · cases hs
    · split at hs
      · next hne =>
        cases hs
        exact .reclaimed hne
      · cases hs
  | search =>
    simp only [step] at hs
    split at hs
    · next hphase =>
      split at hs
      · next heq =>
        split at hs
        · next hd =>
          cases hs
          exact .filled hphase hd
        · next hnone =>
          cases hs
          exact .failed hphase heq hnone
      · cases hs
    · cases hs
  | list =>
    simp only [step] at hs
    split at hs
    · next hphase =>
      cases hs
      exact .listed hphase
    · cases hs
  | take =>
    simp only [step] at hs
    split at hs
    · next hne =>
      cases hs
      exact .taken hne
    · cases hs
  | complete id length =>
    simp only [step] at hs
    split at hs
    · next hid =>
      cases hs
      exact .completed hid
    · cases hs

private theorem contents_fill (s : World) (d : Nat) (frame : List UInt8) :
    contents (fill s d frame) d = withHeader frame := by
  simp only [contents, fill, update_self, withHeader]
  apply ext_getElem
  · rw [length_map, length_range, length_append, length_replicate, Nat.add_comm]
  · intro k hk hk'
    rw [length_map, length_range] at hk
    rw [getElem_map, getElem_range, fillBuffer, getElem_append]
    by_cases hheader : k < headerLength
    · simp [hheader]
    · have hlt : k - headerLength < frame.length := by omega
      simp only [hheader, if_false, length_replicate, dite_false]
      rw [if_pos (by omega), getD_eq_getElem _ _ hlt]

private theorem sound_prepareQueue (h : ValidSize size) (buffers : Nat → Nat → UInt8) :
    Sound (prepareQueue size buffers) [] [] 0 0 where
  size := h
  busy d := rfl
  bounded d hd := by cases hd
  deviceIndex := rfl
  availableIndex := rfl
  lastUsed := rfl
  usedIndex := rfl
  availableRing := Window.nil _ _ _
  usedRing := Window.nil _ _ _
  frames := rfl
  listing d frame hd := by cases hd
  result hne := absurd rfl hne

namespace Sound

section

variable (h : Sound s waits returned t r)

include h

private theorem mem_places (d : Nat) : d ∈ places s waits returned ↔ s.busy d = true := by
  rw [← count_pos_iff, h.busy d]
  cases s.busy d <;> simp

private theorem nodup : (places s waits returned).Nodup := by
  rw [nodup_iff_count_le_one]
  intro d
  rw [h.busy d]
  exact Bool.toNat_le _

private theorem length_le : (places s waits returned).length ≤ s.queue.size := by
  have hsub : places s waits returned ⊆ range s.queue.size := by
    intro d hd
    exact mem_range.mpr (h.bounded d ((h.mem_places d).mp hd))
  have hle := (subperm_of_subset h.nodup hsub).length_le
  rwa [length_range] at hle

private theorem lengths_le :
    waits.length + s.held.length + returned.length + s.phase.listed.length ≤ s.queue.size := by
  have hle := h.length_le
  simp only [places, length_append] at hle
  exact hle

private theorem waiting_eq : waiting s = waits := by
  have hlength := h.lengths_le
  have hsize := h.size.2.1
  have hcount : (s.queue.availableIndex + 2 ^ 16 - s.deviceIndex) % 2 ^ 16 = waits.length := by
    rw [h.availableIndex, h.deviceIndex]
    omega
  rw [waiting, hcount]
  apply ext_getElem
  · rw [length_map, length_range]
  · intro j hj hj'
    rw [getElem_map, getElem_range, h.deviceIndex, Nat.add_mod, h.size.slot_eq,
      ← Nat.add_mod]
    exact h.availableRing j _ (getElem?_eq_getElem hj')

private theorem owned_iff (d : Nat) : Owned s d ↔ d ∈ waits ∨ d ∈ s.held :=
  by rw [Owned, h.waiting_eq]

end

variable {d : Nat} {frame : List UInt8}

private theorem busy_of_owned (h : Sound s waits returned t r) (hd : Owned s d) :
    s.busy d = true := by
  rw [h.owned_iff] at hd
  rw [← h.mem_places, places]
  simp only [mem_append]
  tauto

private theorem deviceSlot (h : Sound s waits returned t r) :
    s.deviceIndex % s.queue.size = t % s.queue.size := by rw [h.deviceIndex, h.size.slot_eq]

private theorem take (h : Sound s (d :: waits) returned t r) : Sound (take s) waits returned (t + 1) r := by
  have hd : s.queue.availableRing (s.deviceIndex % s.queue.size) = d := by
    rw [h.deviceSlot]
    exact h.availableRing.head
  refine { h with
    busy := ?_, deviceIndex := ?_, availableIndex := ?_, availableRing := h.availableRing.tail,
    frames := ?_ }
  · intro e
    refine Eq.trans ?_ (h.busy e)
    simp only [places, Transmit.take, hd, count_append, count_cons, count_nil]
    omega
  · simp only [Transmit.take, h.deviceIndex]
    omega
  · simp only [Transmit.take, h.availableIndex, length_cons]
    congr 1
    omega
  · change s.history.read ++ [contents s (s.queue.availableRing (s.deviceIndex % s.queue.size))] ++
      waits.map (contents s) = s.history.accepted.map withHeader
    rw [hd, append_assoc]
    exact h.frames

private theorem complete (h : Sound s waits returned t r) {id : Nat} (hid : id ∈ s.held) (length : Nat) :
    Sound (complete s id length) waits (returned ++ [id]) t r := by
  have hheld : 0 < s.held.length := length_pos_of_mem hid
  have hroom : returned.length < s.queue.size := by
    have := h.lengths_le
    omega
  refine { h with busy := ?_, usedIndex := ?_, usedRing := ?_ }
  · intro e
    refine Eq.trans ?_ (h.busy e)
    simp only [places, Transmit.complete, count_append, count_erase, count_cons,
      count_nil]
    by_cases he : id = e
    · subst he
      have := count_pos_iff.mpr hid
      simp only [beq_self_eq_true, if_true]
      omega
    · simp [he]
  · simp only [Transmit.complete, h.usedIndex, length_append, length_singleton]
    omega
  · have hpush := h.usedRing.push hroom id
    simp only [Transmit.complete, h.usedIndex, h.size.slot_eq]
    convert hpush using 1
    funext k
    by_cases hk : k = (r + returned.length) % s.queue.size
    · rw [hk, setSlot_same, update_self]
    · rw [setSlot_of_ne _ _ _ _ hk, update_of_ne hk]

private theorem reclaim (h : Sound s waits (d :: returned) t r) :
    Sound (reclaim s) waits returned t (r + 1) := by
  have hd : (s.queue.usedRing (s.queue.lastUsed % s.queue.size)).id = d := by
    rw [h.lastUsed, h.size.slot_eq]
    exact h.usedRing.head
  have hbusy : s.busy d = true := by
    rw [← h.mem_places]
    simp [places]
  have hone := h.busy d
  refine { h with
    busy := ?_, bounded := ?_, lastUsed := ?_, usedIndex := ?_, usedRing := h.usedRing.tail }
  · intro e
    have hplaces := h.busy e
    simp only [places, Transmit.reclaim, hd, if_pos (h.bounded d hbusy), count_append,
      count_cons] at hplaces hone ⊢
    by_cases he : e = d
    · subst he
      simp only [beq_self_eq_true, if_true, hbusy, update_self, Bool.toNat_true,
        Bool.toNat_false] at hone ⊢
      omega
    · rw [update_of_ne he]
      simp only [beq_iff_eq, Ne.symm he, if_false] at hplaces
      omega
  · intro e he
    simp only [Transmit.reclaim, hd, if_pos (h.bounded d hbusy)] at he ⊢
    by_cases hed : e = d
    · rw [hed]
      exact h.bounded d hbusy
    · rw [update_of_ne hed] at he
      exact h.bounded e he
  · simp only [Transmit.reclaim, h.lastUsed]
    omega
  · simp only [Transmit.reclaim, h.usedIndex, length_cons]
    congr 1
    omega

section

variable (h : Sound s waits returned t r)

include h

private theorem fill (hphase : s.phase = .reclaiming frame) (hfree : s.busy d = false)
    (hd : d < s.queue.size) : Sound (fill s d frame) waits returned t r := by
  have hnot : d ∉ places s waits returned := by
    rw [h.mem_places, hfree]
    exact Bool.false_ne_true
  refine { h with busy := ?_, bounded := ?_, frames := ?_, listing := ?_, result := ?_ }
  · intro e
    have hplaces := h.busy e
    simp only [places, hphase, Phase.listed, Transmit.fill, count_append, count_cons,
      count_nil] at hplaces ⊢
    by_cases he : e = d
    · subst he
      rw [hfree, Bool.toNat_false] at hplaces
      simp only [update_self, beq_self_eq_true, if_true, Bool.toNat_true]
      omega
    · rw [update_of_ne he, if_neg (by simpa using Ne.symm he)]
      omega
  · intro e he
    by_cases hed : e = d
    · rw [hed]
      exact hd
    · apply h.bounded
      simpa only [Transmit.fill, update_of_ne hed] using he
  · refine Eq.trans ?_ h.frames
    apply congrArg (s.history.read ++ ·)
    apply map_congr_left
    intro e he
    have hne : e ≠ d := by
      rintro rfl
      exact hnot (by simp [places, he])
    simp only [contents, Transmit.fill, update_of_ne hne]
  · intro e frame' he
    cases he
    exact contents_fill s d frame
  · intro _
    exact h.result (by rw [hphase]; exact Phase.noConfusion)

private theorem list (hphase : s.phase = .listing d frame) :
    Sound (list s d frame) (waits ++ [d]) returned t r := by
  have hroom : waits.length < s.queue.size := by
    have := h.lengths_le
    rw [hphase, Phase.listed, length_singleton] at this
    omega
  refine { h with
    busy := ?_, availableIndex := ?_, availableRing := ?_, frames := ?_, listing := ?_,
    result := ?_ }
  · intro e
    refine Eq.trans ?_ (h.busy e)
    simp only [places, hphase, Phase.listed, Transmit.list, count_append, count_nil]
    omega
  · simp only [Transmit.list, h.availableIndex, length_append, length_singleton]
    omega
  · have hpush := h.availableRing.push hroom d
    simp only [Transmit.list, h.availableIndex, h.size.slot_eq]
    convert hpush using 1
    funext k
    by_cases hk : k = (t + waits.length) % s.queue.size
    · rw [hk, setSlot_same, update_self]
    · rw [setSlot_of_ne _ _ _ _ hk, update_of_ne hk]
  · change s.history.read ++ (waits ++ [d]).map (contents s) =
      (s.history.accepted ++ [frame]).map withHeader
    rw [map_append, map_append, ← append_assoc, h.frames, map_singleton,
      map_singleton, h.listing d frame hphase]
  · intro e frame' he
    cases he
  · intro hne
    exact absurd rfl hne

private theorem busy_of_findDescriptor (hnone : findDescriptor s = none) (hd : d < s.queue.size) :
    s.busy d = true := by
  have hsize : 0 < s.queue.size := Nat.lt_of_lt_of_le (by decide) h.size.1
  rw [findDescriptor, find?_eq_none] at hnone
  -- the attempt at which the cursor comes to the descriptor
  have hmem : d ∈ (range s.queue.size).map
      fun attempt => (s.cursor + attempt) % s.queue.size := by
    refine mem_map.mpr ⟨(d + (s.queue.size - s.cursor % s.queue.size)) % s.queue.size,
      mem_range.mpr (Nat.mod_lt _ hsize), ?_⟩
    have hcursor := Nat.mod_lt s.cursor hsize
    rw [Nat.add_mod_mod, ← Nat.mod_add_mod,
      show s.cursor % s.queue.size + (d + (s.queue.size - s.cursor % s.queue.size)) =
        d + s.queue.size by omega, Nat.add_mod_right, Nat.mod_eq_of_lt hd]
  simpa using hnone d hmem

private theorem findDescriptor_spec (hsome : findDescriptor s = some d) :
    s.busy d = false ∧ d < s.queue.size := by
  have hsize : 0 < s.queue.size := Nat.lt_of_lt_of_le (by decide) h.size.1
  rw [findDescriptor] at hsome
  refine ⟨by simpa using find?_some hsome, ?_⟩
  obtain ⟨attempt, -, rfl⟩ := mem_map.mp (mem_of_find?_eq_some hsome)
  exact Nat.mod_lt _ hsize

private theorem returned_eq_nil (heq : s.queue.lastUsed = s.queue.usedIndex) : returned = [] := by
  have hlength := h.lengths_le
  have hsize := h.size.2.1
  rw [h.lastUsed, h.usedIndex] at heq
  apply eq_nil_of_length_eq_zero
  omega

private theorem quiet (hlisted : s.phase.listed = []) {phase : Phase} (hphase : phase.listed = [])
    {result : Option Bool} (hresult : phase ≠ .idle → result = none) (failures : Nat) :
    Sound { s with phase := phase, result := result, failures := failures } waits returned t r := by
  refine { h with busy := ?_, listing := ?_, result := hresult }
  · intro d
    refine Eq.trans ?_ (h.busy d)
    simp only [places, hlisted, hphase]
  · intro d frame hd
    change phase = _ at hd
    rw [hd, Phase.listed] at hphase
    cases hphase

private theorem turn {e : Event} (hturn : Turn s e s') :
    ∃ waits' returned' t' r', Sound s' waits' returned' t' r' := by
  cases hturn with
  | refused hidle hsend =>
    have hlisted : s.phase.listed = [] := by rw [hidle]; rfl
    exact ⟨_, _, _, _, h.quiet hlisted hlisted (fun hne => absurd hidle hne) _⟩
  | called hidle hsend =>
    have hlisted : s.phase.listed = [] := by rw [hidle]; rfl
    exact ⟨_, _, _, _, h.quiet hlisted rfl (fun _ => rfl) _⟩
  | reclaimed hne =>
    cases returned with
    | nil => exact absurd (by rw [h.lastUsed, h.usedIndex, length_nil, Nat.add_zero]) hne
    | cons d returned => exact ⟨_, _, _, _, h.reclaim⟩
  | filled hphase hd =>
    obtain ⟨hfree, hlt⟩ := h.findDescriptor_spec hd
    exact ⟨_, _, _, _, h.fill hphase hfree hlt⟩
  | failed hphase heq hnone =>
    have hlisted : s.phase.listed = [] := by rw [hphase]; rfl
    exact ⟨_, _, _, _, h.quiet hlisted rfl (fun hne => absurd rfl hne) _⟩
  | listed hphase => exact ⟨_, _, _, _, h.list hphase⟩
  | taken hne =>
    cases waits with
    | nil =>
      exact absurd (by rw [h.deviceIndex, h.availableIndex, length_nil, Nat.add_zero]) hne
    | cons d waits => exact ⟨_, _, _, _, h.take⟩
  | completed hid => exact ⟨_, _, _, _, h.complete hid _⟩

private theorem keeps_owned {e : Event} (hturn : Turn s e s') (hd : Owned s d) :
    s'.buffers d = s.buffers d ∧ s'.lengths d = s.lengths d := by
  cases hturn with
  | @filled frame e hphase he =>
    have hne : d ≠ e := by
      rintro rfl
      have hbusy := h.busy_of_owned hd
      rw [(h.findDescriptor_spec he).1] at hbusy
      cases hbusy
    exact ⟨update_of_ne hne _ _, update_of_ne hne _ _⟩
  | _ => exact ⟨rfl, rfl⟩

private theorem owned_of_failed (hphase : s.phase = .reclaiming frame)
    (heq : s.queue.lastUsed = s.queue.usedIndex) (hnone : findDescriptor s = none)
    (hd : d < s.queue.size) : Owned s d := by
  have hmem := (h.mem_places d).mpr (h.busy_of_findDescriptor hnone hd)
  have hlisted : s.phase.listed = [] := by rw [hphase]; rfl
  rw [places, h.returned_eq_nil heq, hlisted, append_nil, append_nil,
    mem_append] at hmem
  exact (h.owned_iff d).mpr hmem

end

end Sound

private theorem Reachable.sound (hsize : ValidSize size) (h : Reachable size s) :
    ∃ waits returned t r, Sound s waits returned t r := by
  induction h with
  | start buffers => exact ⟨[], [], 0, 0, sound_prepareQueue hsize buffers⟩
  | step _ hs ih =>
    obtain ⟨waits, returned, t, r, h⟩ := ih
    exact h.turn (step_turn hs)

private theorem Reachable.size_eq (h : Reachable size s) : s.queue.size = size := by
  induction h with
  | start buffers => rfl
  | step _ hs ih =>
    rw [← ih]
    cases step_turn hs <;> rfl

/-- What `send` returns in a turn, if it returns in it. -/
def returns (e : Event) (s' : World) : Option Bool :=
  match e with
  | .call _ | .search | .list => s'.result
  | _ => none

/-- In every state that is reached, whatever turn is taken next: buffers of descriptors that the
device owns stay as they are; what the device read and what still waits on the ring are the accepted
frames, each once, in order and with its bytes; and `send` returns false only for a frame that it
refuses as such, or when the device owns all descriptors. -/
theorem transmit_ring (hsize : ValidSize size) (h : Reachable size s) :
    s.history.read ++ (waiting s).map (contents s) = s.history.accepted.map withHeader ∧
    ∀ e s', step s e = some s' →
      (∀ d, Owned s d → s'.buffers d = s.buffers d ∧ s'.lengths d = s.lengths d) ∧
      (returns e s' = some true → ∃ d frame, s.phase = .listing d frame ∧
        s'.history.accepted = s.history.accepted ++ [frame]) ∧
      (returns e s' ≠ some true → s'.history.accepted = s.history.accepted) ∧
      (returns e s' = some false →
        (∃ frame, e = .call frame ∧ sendable s frame = false) ∨ ∀ d < size, Owned s d) := by
  obtain ⟨waits, returned, t, r, hsound⟩ := h.sound hsize
  refine ⟨by rw [hsound.waiting_eq]; exact hsound.frames, ?_⟩
  intro e s' hs
  have hturn := step_turn hs
  refine ⟨fun d hd => hsound.keeps_owned hturn hd, ?_⟩
  cases hturn with
  | refused hidle hsend =>
    refine ⟨nofun, fun _ => rfl, fun _ => .inl ⟨_, rfl, hsend⟩⟩
  | called | reclaimed | taken | completed => exact ⟨nofun, fun _ => rfl, nofun⟩
  | filled hphase hd =>
    have hnone : s.result = none := hsound.result (by rw [hphase]; exact Phase.noConfusion)
    refine ⟨fun hr => ?_, fun _ => rfl, fun hr => ?_⟩ <;>
      exact absurd (hnone.symm.trans hr) (by decide)
  | failed hphase heq hnone =>
    refine ⟨nofun, fun _ => rfl, fun _ => .inr ?_⟩
    intro d hd
    exact hsound.owned_of_failed hphase heq hnone (h.size_eq.symm ▸ hd)
  | listed hphase =>
    exact ⟨fun _ => ⟨_, _, hphase, rfl⟩, fun hr => absurd rfl hr, nofun⟩

/-- A queue of eight descriptors with zeroed buffers. -/
def smallQueue : World := prepareQueue 8 fun _ _ => 0

private theorem reachable_foldlM {events : List Event} (h : Reachable size s)
    (hrun : events.foldlM step s = some s') : Reachable size s' := by
  induction events generalizing s with
  | nil =>
    cases hrun
    exact h
  | cons e events ih =>
    obtain ⟨t, hs, hrest⟩ := Option.bind_eq_some_iff.mp hrun
    exact ih (h.step hs) hrest

/-- Two frames were sent; the device took both and returned the second one first. A third frame is
on its way. -/
def inFlight : World :=
  ([.call (some [7]), .search, .list, .call (some [8]), .search, .list, .take, .take, .complete 1 0,
    .reclaim, .call (some [9])].foldlM step smallQueue).get (by decide)

/-- The device has read both frames, and the next turn leaves the buffer alone that it still owns. -/
theorem transmit_ring_inFlight : Reachable 8 inFlight ∧ Owned inFlight 0 ∧ ¬ Owned inFlight 1 ∧
    inFlight.history.read ++ (waiting inFlight).map (contents inFlight) =
      [withHeader [7], withHeader [8]] ∧
    ∃ s, step inFlight .search = some s ∧ s.buffers 0 = inFlight.buffers 0 := by
  have hreach : Reachable 8 inFlight :=
    reachable_foldlM (.start fun _ _ => 0) (Option.some_get _).symm
  have howned : Owned inFlight 0 := .inr (by decide)
  obtain ⟨hframes, hturns⟩ := transmit_ring (by decide) hreach
  obtain ⟨s, hs⟩ := Option.isSome_iff_exists.mp
    (by decide : (step inFlight .search).isSome = true)
  exact ⟨hreach, howned, by unfold Owned; decide, hframes, s, hs, ((hturns _ _ hs).1 0 howned).1⟩

/-- An empty frame is refused although the device owns no descriptor. -/
theorem empty_frame_refused :
    (step smallQueue (.call (some []))).map (returns (.call (some []))) = some (some false) ∧
      ∀ d, ¬ Owned smallQueue d := by
  refine ⟨rfl, ?_⟩
  intro d hd
  simp [Owned, waiting, smallQueue, prepareQueue] at hd

end NasuaOS.Virtio.Transmit
