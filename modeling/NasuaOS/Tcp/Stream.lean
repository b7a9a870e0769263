import NasuaOS.Tcp.Storage
import NasuaOS.Tcp.Delivery

/-!
# The byte stream of the TLS engine

In stream mode the payloads go through the receive queue to `tls_tcp_read`. What the engine was given
and what waits in the queue is a beginning of the stream as long as nothing is stored behind bytes
that did not fit: `handle_tcp` counts those as received, and `tls_tcp_read` looks at `overflow` only
when the queue is empty.
-/

namespace NasuaOS.Tcp

open Base List

variable {isn : UInt32} {data : Bytes} {k n : Nat} {c c' : Client} {s s' : System}
  {seg : Segment} {given items : Bytes}

/-- The receive queue holds `items`. -/
structure Queue (c : Client) (items : Bytes) : Prop where
  mode : c.streamMode = true
  window : Window c.receiveQueue tcpReceiveQueueSize c.receiveHead items
  length : items.length = c.receiveLength
  fits : items.length ≤ tcpReceiveQueueSize

namespace Queue

private theorem congr (h : Queue c items) (hsame : c'.receiving = c.receiving) : Queue c' items := by
  have hm : c'.streamMode = c.streamMode := congrArg Receiving.streamMode hsame
  have hh : c'.receiveHead = c.receiveHead := congrArg Receiving.receiveHead hsame
  have hl : c'.receiveLength = c.receiveLength := congrArg Receiving.receiveLength hsame
  have hq : c'.receiveQueue = c.receiveQueue := congrArg Receiving.receiveQueue hsame
  refine ⟨hm.trans h.mode, ?_, h.length.trans hl.symm, h.fits⟩
  rw [hq, hh]
  exact h.window

private theorem queued_eq (h : Queue c items) : queued c = items := by
  rw [queued, ← h.length]
  exact h.window.eq_contents

private theorem store {payload : Bytes} (h : Queue c items)
    (hstore : storePayload c payload = .ok c') :
    Queue c' (items ++ payload.take (tcpReceiveQueueSize - items.length)) ∧
      c'.overflow = (c.overflow || decide
        ((payload.take (tcpReceiveQueueSize - items.length)).length < payload.length)) := by
  have hfits := h.fits
  rw [h.length] at hfits ⊢
  obtain ⟨queue, hafter, hwindow⟩ := storePayload_stream h.mode h.window h.length hfits payload
  rw [hafter, Except.ok.injEq] at hstore
  subst hstore
  have hcopied := length_take_le (tcpReceiveQueueSize - c.receiveLength) payload
  refine ⟨⟨h.mode, hwindow, ?_, ?_⟩, rfl⟩
  · rw [length_append, h.length]
  · rw [length_append, h.length]
    omega

private theorem read (h : Queue c items) (length : Nat) :
    (readQueue c length).1 = items.take (min length items.length) ∧
      Queue (readQueue c length).2 (items.drop (min length items.length)) := by
  have hfits := h.fits
  simp only [readQueue, h.queued_eq, ← h.length]
  refine ⟨trivial, h.mode, ?_, ?_, ?_⟩
  · intro j x hj
    rw [Nat.mod_add_mod]
    exact h.window.drop _ j x hj
  · rw [length_drop]
  · rw [length_drop]
    omega

end Queue

/-- What the engine was given, and what waits in the queue, when `k` bytes were accepted. -/
def Streamed (data : Bytes) (c : Client) (given : Bytes) (k : Nat) : Prop :=
  ∃ items, Queue c items ∧ given ++ items <+: data ∧
    (c.overflow = false → given ++ items = data.take k)

section

variable (h : Streamed data c given k)

include h

private theorem Streamed.congr (hsame : c'.receiving = c.receiving) : Streamed data c' given k := by
  obtain ⟨items, hqueue, hbytes, hall⟩ := h
  have ho : c'.overflow = c.overflow := congrArg Receiving.overflow hsame
  exact ⟨items, hqueue.congr hsame, hbytes, ho ▸ hall⟩

private theorem Streamed.store {payload : Bytes} (hbytes : payload <+: data.drop k)
    (hfull : c.overflow = true → c.receiveLength = tcpReceiveQueueSize)
    (hstore : storePayload c payload = .ok c') : Streamed data c' given (k + payload.length) := by
  obtain ⟨items, hqueue, hgiven, hall⟩ := h
  obtain ⟨hafter, hover⟩ := hqueue.store hstore
  refine ⟨_, hafter, ?_⟩
  cases hmissing : c.overflow with
  | true =>
    rw [hqueue.length, hfull hmissing, Nat.sub_self, take_zero, append_nil]
    refine ⟨hgiven, ?_⟩
    intro hno
    rw [hover, hmissing, Bool.true_or] at hno
    cases hno
  | false =>
    obtain ⟨rest, hrest⟩ := hbytes
    have htake (m : Nat) (hm : m ≤ payload.length) :
        given ++ (items ++ payload.take m) = data.take (k + m) := by
      rw [← append_assoc, hall hmissing, take_add, ← hrest,
        take_append_of_le_length hm]
    constructor
    · rw [take_eq_take_min, htake _ (Nat.min_le_right _ _)]
      exact take_prefix _ _
    · intro hno
      rw [hover, hmissing, Bool.false_or, decide_eq_false_iff_not, length_take] at hno
      rw [take_of_length_le (by omega)]
      have := htake payload.length le_rfl
      rwa [take_length] at this

private theorem Streamed.read (length : Nat) :
    Streamed data (readQueue c length).2 (given ++ (readQueue c length).1) k := by
  obtain ⟨items, hqueue, hgiven, hall⟩ := h
  obtain ⟨hread, hafter⟩ := hqueue.read length
  refine ⟨_, hafter, ?_⟩
  rw [hread, append_assoc, take_append_drop]
  exact ⟨hgiven, hall⟩

private theorem Streamed.effect (hreached : Reached isn data c k) (hseg : Current isn data k seg)
    (hfull : c.overflow = true → n ≠ 0 → c.receiveLength = tcpReceiveQueueSize)
    (heffect : Effect c seg c' n) : Streamed data c' given (k + n) := by
  cases heffect with
  | quiet hsame => exact h.congr hsame
  | opened _ _ hafter =>
    apply Streamed.congr (c := { c with synAcknowledged := true, nextRemoteSequence := _ }) _ hafter
    obtain ⟨items, hqueue, hrest⟩ := h
    exact ⟨items, ⟨hqueue.mode, hqueue.window, hqueue.length, hqueue.fits⟩, hrest⟩
  | stored c₁ hopen hne hnext hsame hstore =>
    obtain ⟨-, hbytes⟩ := hreached.payload hseg hopen hne hnext
    have hl : c₁.receiveLength = c.receiveLength := congrArg Receiving.receiveLength hsame
    have ho : c₁.overflow = c.overflow := congrArg Receiving.overflow hsame
    refine (h.congr hsame).store hbytes ?_ hstore
    rw [hl, ho]
    exact fun hover => hfull hover (Nat.ne_of_gt (length_pos_iff.mpr hne))
  | closed _ _ _ hafter =>
    apply Streamed.congr (c := { c with peerClosed := true, nextRemoteSequence := _ }) _ hafter
    obtain ⟨items, hqueue, hrest⟩ := h
    exact ⟨items, ⟨hqueue.mode, hqueue.window, hqueue.length, hqueue.fits⟩, hrest⟩

end

/-- The turns under which the stream is kept: the segment in hand is one of the peer, less than one
round of the sequence numbers away, and when bytes are missing already, bytes in order come only
while the queue is full. -/
structure Undisturbed (isn : UInt32) (data : Bytes) (s : System) (k : Nat) (e : Event) :
    Prop where
  current : ∀ seg, turnSegment s e = some seg → Current isn data k seg
  full : s.client.overflow = true → acceptedIn s e ≠ 0 →
    s.client.receiveLength = tcpReceiveQueueSize

/-- The invariant of a connection in stream mode. -/
structure StreamRun (isn : UInt32) (data : Bytes) (s : System) (k : Nat) : Prop where
  good : Good (fun _ => True) s
  reached : Reached isn data s.client k
  streamed : Streamed data s.client s.received k

private theorem StreamRun.step {e : Event} (h : StreamRun isn data s k)
    (hturn : Undisturbed isn data s k e) (hstep : step s e = some s') :
    StreamRun isn data s' (k + acceptedIn s e) := by
  obtain ⟨hgood, hprogress⟩ := (step_turn hstep).progress h.good fun _ _ => trivial
  cases hprogress with
  | segment seg hseg heffect hreceived =>
    have hcurrent := hturn.current seg hseg
    refine ⟨hgood, h.reached.effect hcurrent heffect, ?_⟩
    rw [hreceived]
    exact h.streamed.effect h.reached hcurrent hturn.full heffect
  | quiet hsame hzero hreceived =>
    rw [hzero]
    refine ⟨hgood, h.reached.congr hsame, ?_⟩
    rw [hreceived]
    exact h.streamed.congr hsame
  | read length _ hafter hzero hreceived =>
    rw [hzero]
    refine ⟨hgood, Reached.congr (c := (readQueue s.client length).2) ?_ hafter, ?_⟩
    · exact ⟨h.reached.bound, h.reached.fresh, h.reached.next, h.reached.closed⟩
    · rw [hreceived]
      exact (h.streamed.read length).congr hafter

private theorem Start.streamRun (h : Start s) (hmode : s.client.streamMode = true) :
    StreamRun isn data s 0 := by
  cases h with
  | http => cases hmode
  | https =>
    refine ⟨⟨nofun, fun hne => absurd rfl hne⟩, Reached.start rfl rfl rfl, [], ?_⟩
    exact ⟨⟨rfl, Window.nil _ _ _, rfl, Nat.zero_le _⟩, nil_prefix, fun _ => rfl⟩

private theorem Streamed.overflow_eq_false (h : Streamed data c given k) (hreached : Reached isn data c k)
    (hdata : data.length ≤ tcpReceiveQueueSize) (hseg : Current isn data k seg)
    (heffect : Effect c seg c' n) (hover : c.overflow = false) : c'.overflow = false := by
  cases heffect with
  | quiet hsame => exact (congrArg Receiving.overflow hsame).trans hover
  | opened _ _ hafter | closed _ _ _ hafter =>
    exact (congrArg Receiving.overflow hafter).trans hover
  | stored c₁ hopen hne hnext hsame hstore =>
    obtain ⟨items, hqueue, -, hall⟩ := h
    obtain ⟨-, hafter⟩ := (hqueue.congr hsame).store hstore
    have ho : c₁.overflow = false := (congrArg Receiving.overflow hsame).trans hover
    have hbytes := (hreached.payload hseg hopen hne hnext).2.length_le
    have hlen := congrArg length (hall hover)
    rw [length_append, length_take] at hlen
    rw [length_drop] at hbytes
    rw [hafter, ho, Bool.false_or, decide_eq_false_iff_not, length_take]
    omega

/-- The invariant of a connection whose stream fits into the queue. -/
structure ShortRun (isn : UInt32) (data : Bytes) (s : System) (k : Nat) : Prop where
  stream : StreamRun isn data s k
  peer : Good (FromPeer isn data) s
  fits : s.client.overflow = false

private theorem ShortRun.undisturbed {e : Event} (h : ShortRun isn data s k)
    (hdata : data.length ≤ tcpReceiveQueueSize)
    (harrive : ∀ seg, e = .arrive seg → FromPeer isn data seg) : Undisturbed isn data s k e := by
  have hsize : tcpReceiveQueueSize + 1 < 2 ^ 32 := by decide
  refine ⟨?_, ?_⟩
  · intro seg hseg
    exact (h.peer.turnSegment harrive hseg).current (by omega) h.stream.reached.bound
  · intro hover
    rw [h.fits] at hover
    cases hover

/-- Every turn keeps the invariant. -/
theorem ShortRun.step {e : Event} (h : ShortRun isn data s k)
    (hdata : data.length ≤ tcpReceiveQueueSize)
    (harrive : ∀ seg, e = .arrive seg → FromPeer isn data seg) (hstep : step s e = some s') :
    ShortRun isn data s' (k + acceptedIn s e) := by
  have hundisturbed := h.undisturbed hdata harrive
  obtain ⟨hgood, hprogress⟩ := (step_turn hstep).progress h.peer harrive
  refine ⟨h.stream.step hundisturbed hstep, hgood, ?_⟩
  cases hprogress with
  | segment seg hseg heffect _ =>
    exact h.stream.streamed.overflow_eq_false h.stream.reached hdata
      (hundisturbed.current seg hseg) heffect h.fits
  | quiet hsame _ _ => exact (congrArg Receiving.overflow hsame).trans h.fits
  | read _ _ hafter _ _ => exact (congrArg Receiving.overflow hafter).trans h.fits

/-- A call of `https_get` starts with the invariant. -/
theorem Start.shortRun (h : Start s) (hmode : s.client.streamMode = true) :
    ShortRun isn data s 0 := by
  refine ⟨h.streamRun hmode, ?_, ?_⟩
  · cases h <;> exact ⟨nofun, fun hne => absurd rfl hne⟩
  · cases h <;> rfl

private theorem ShortRun.meets {events : List Event} (h : ShortRun isn data s k)
    (hdata : data.length ≤ tcpReceiveQueueSize)
    (hpeer : ∀ seg, Event.arrive seg ∈ events → FromPeer isn data seg) :
    Meets Tcp.step countAccepted (Undisturbed isn data) events s k := by
  have hevents : ∀ e ∈ events, ∀ seg, e = .arrive seg → FromPeer isn data seg := by
    rintro e he seg rfl
    exact hpeer seg he
  refine meets_of_invariant ?_ ?_ h hevents
  · intro t k e t' hI harrive hstep
    exact hI.step hdata harrive hstep
  · intro t k e hI harrive
    exact hI.undisturbed hdata harrive

/-- What the TLS engine is given is a beginning of the stream, in every run of such turns. -/
theorem tls_stream_kept {s₀ : System} {events : List Event} (hstart : Start s₀)
    (hmode : s₀.client.streamMode = true)
    (hmeets : Meets step countAccepted (Undisturbed isn data) events s₀ 0)
    (hrun : run events s₀ = some s) : s.received <+: data := by
  have hI : StreamRun isn data s (accepted events s₀) := by
    refine steps_invariant ?_ (hstart.streamRun hmode) hmeets hrun
    intro t k e t' hI hturn hstep
    exact hI.step hturn hstep
  obtain ⟨items, -, hbytes, -⟩ := hI.streamed
  exact (prefix_append _ _).trans hbytes

/-- A call of `https_get` that waits one tick. -/
def secureStart : System :=
  ⟨newClient 7 true (fun _ => 0) 0, [], .ready (.connectTest ⟨0, 1, 0, 0⟩), 0, [], []⟩

/-- The connection is opened. -/
def handshake : List Event :=
  [.run 0, .run 0, .sent true, .run 0, .arrive ⟨0x12, 100, 8, 1460, []⟩, .sent true]

/-- The engine reads two bytes. -/
def readTwo : List Event :=
  [.run 0, .run 0, .run 0, .engine (.read 5), .run 0, .arrive ⟨0x10, 101, 8, 1460, [22, 3]⟩,
    .sent true, .run 0, .run 0]

/-- A connection on which the engine reads two bytes. -/
def greeting : List Event := handshake ++ readTwo

private theorem secureStart_start : Start secureStart := .https 7 (fun _ => 0) 0 1 (by decide)

private theorem greeting_fromPeer :
    ∀ seg, Event.arrive seg ∈ greeting → FromPeer 100 [22, 3, 1] seg := by
  intro seg hseg
  simp only [greeting, handshake, readTwo, mem_append, mem_cons, not_mem_nil, or_false,
    Event.arrive.injEq, reduceCtorEq, false_or] at hseg
  rcases hseg with rfl | rfl
  · exact .inr ⟨0, by decide, by decide, by decide, by decide, by decide⟩
  · exact .inr ⟨0, by decide, by decide, by decide, by decide, by decide⟩

/-- The first two bytes of a longer stream are read. -/
theorem tls_stream_kept_greeting :
    ((run greeting secureStart).map fun s => s.received) = some [22, 3] ∧
      ∀ s, run greeting secureStart = some s → s.received <+: [22, 3, 1] := by
  have hmeets : Meets step countAccepted (Undisturbed 100 [22, 3, 1]) greeting secureStart 0 := by
    apply (secureStart_start.shortRun rfl).meets (by decide)
    exact greeting_fromPeer
  exact ⟨by decide, fun s hrun => tls_stream_kept secureStart_start rfl hmeets hrun⟩

/-- A stream of zeros with a one at its end. -/
def holeData : Bytes := replicate 17520 0 ++ [1]

private theorem holeData_length : holeData.length = 17521 := by
  rw [holeData, length_append, length_replicate, length_singleton]

/-- Full segments of zeros, each acknowledged. -/
def zeros : Nat → List Event
  | 0 => []
  | m + 1 => zeros m ++
      [.arrive ⟨0x10, position 100 (1460 * m), 8, 1460, replicate 1460 0⟩, .sent true]

/-- The engine is started and reads some bytes. -/
def firstRead : List Event := [.run 0, .run 0, .run 0, .engine (.read 1000), .run 0]

/-- The engine writes one byte. -/
def oneWrite : List Event := [.engine (.write [22]), .run 0, .sent true, .run 0, .run 0]

/-- The write ends, and the engine reads on. -/
def readOn : List Event := [.run 0, .run 0, .engine (.read 20000), .run 0]

/-- The last byte arrives. -/
def lastByte : List Event :=
  [.arrive ⟨0x10, position 100 (1460 * 12), 9, 1460, [1]⟩, .sent true]

/-- The connection is opened, twelve full segments arrive, the engine reads, a write is in progress
when the last byte arrives, and the engine reads on. -/
def holeEvents : List Event :=
  handshake ++ (zeros 12 ++ (firstRead ++ (oneWrite ++ (lastByte ++ readOn))))

private theorem zeros_fromPeer {m : Nat} (hm : m ≤ 12) :
    ∀ seg, Event.arrive seg ∈ zeros m → FromPeer 100 holeData seg := by
  induction m with
  | zero => exact nofun
  | succ m ih =>
    intro seg hseg
    simp only [zeros, mem_append, mem_cons, not_mem_nil, or_false,
      Event.arrive.injEq, reduceCtorEq] at hseg
    rcases hseg with hseg | rfl
    · exact ih (by omega) seg hseg
    · have hcarries : Carries 100 holeData (1460 * m)
          (nextSegment { secureStart.client with nextRemoteSequence := position 100 (1460 * m) } 8
            (replicate 1460 0)) := by
        apply nextSegment_carries rfl
        · rw [holeData_length]
          omega
        · refine ⟨replicate (17520 - 1460 * m - 1460) 0 ++ [1], ?_⟩
          rw [← append_assoc, replicate_append_replicate, holeData,
            drop_append_of_le_length (by rw [length_replicate]; omega),
            drop_replicate, Nat.add_sub_of_le (by omega)]
      exact .inr ⟨1460 * m, hcarries⟩

/-- The engine is given a byte that stands behind a hole. -/
theorem tls_stream_hole : Start secureStart ∧
    (∀ seg, Event.arrive seg ∈ holeEvents → FromPeer 100 holeData seg) ∧
    ∃ s, run holeEvents secureStart = some s ∧ ¬ s.received <+: holeData := by
  refine ⟨secureStart_start, ?_, ?_⟩
  · intro seg hseg
    simp only [holeEvents, handshake, firstRead, oneWrite, lastByte, readOn, mem_append,
      mem_cons, not_mem_nil, or_false,
      Event.arrive.injEq, reduceCtorEq, false_or] at hseg
    rcases hseg with rfl | hzeros | rfl
    · exact .inr ⟨0, by decide, Nat.zero_le _, nil_prefix, by decide, by decide⟩
    · exact zeros_fromPeer (Nat.le_refl 12) seg hzeros
    · have hcarries : Carries 100 holeData (1460 * 12)
          (nextSegment { secureStart.client with nextRemoteSequence := position 100 (1460 * 12) }
            9 [1]) := by
        apply nextSegment_carries rfl
        · rw [holeData_length]
          decide
        · rw [holeData, drop_append_of_le_length (by rw [length_replicate]),
            drop_replicate]
          exact prefix_refl _
      exact .inr ⟨_, hcarries⟩
  · have hbehind : ((run holeEvents secureStart).bind fun s => s.received[16384]?) = some 1 := by
      decide +kernel
    obtain ⟨s, hrun, hone⟩ := Option.bind_eq_some_iff.mp hbehind
    refine ⟨s, hrun, ?_⟩
    intro hprefix
    have hzero : holeData[16384]? = some 0 := by
      rw [holeData, getElem?_append_left (by rw [length_replicate]; decide),
        getElem?_replicate, if_pos (by decide)]
    have hlt := (List.getElem?_eq_some_iff.mp hone).1
    rw [prefix_iff_getElem?.mp hprefix 16384 hlt, ← getElem?_eq_getElem hlt, hone] at hzero
    cases hzero

end NasuaOS.Tcp
