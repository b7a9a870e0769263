import NasuaOS.Tcp.Response
import NasuaOS.Tcp.Stream

/-!
# Flow control

Every segment that goes out advertises a window of 32768 bytes, whatever room is left. A peer that
keeps to the window of the last segment it received never makes the client discard bytes if and only
if its whole stream fits into the buffer.
-/

namespace NasuaOS.Tcp

open Base Relation List

variable {isn : UInt32} {data payload : Bytes} {k n : Nat} {c c' : Client} {s s' s₀ : System}
  {seg : Segment} {heard : Option Outgoing} {flight : List Segment}

/-- The client, the last of its segments that the peer received, and the segments the peer sent. -/
structure Link where
  system : System
  heard : Option Outgoing
  flight : List Segment

/-- The first sequence number that is not acknowledged by a segment of the client. -/
def unacknowledged (isn : UInt32) (o : Outgoing) : UInt32 :=
  if o.flags &&& 16 != 0 then o.acknowledgement else isn + 1

/-- A segment that keeps to the window: its payload ends within the window of what was heard. -/
def Allowed (isn : UInt32) (heard : Option Outgoing) (seg : Segment) : Prop :=
  seg.payload = [] ∨ ∃ o, heard = some o ∧
    (seg.payloadEnd - unacknowledged isn o).toNat ≤ o.window

/-- What can happen next between the client and the peer. The network may lose, repeat and reorder
segments in both directions. -/
inductive Move (isn : UInt32) (data : Bytes) (l : Link) : Link → Prop
  | client {e : Event} {s' : System} (harrive : ∀ seg, e = .arrive seg → seg ∈ l.flight)
    (hstep : step l.system e = some s') : Move isn data l { l with system := s' }
  | hear {o : Outgoing} (ho : o ∈ l.system.wire) : Move isn data l { l with heard := some o }
  | send {seg : Segment} (hpeer : FromPeer isn data seg)
    (hsize : seg.payload.length ≤ tcpMaxPayload) (hallowed : Allowed isn l.heard seg) :
    Move isn data l { l with flight := seg :: l.flight }

/-- What the client has room for. -/
def space (c : Client) : Nat :=
  if c.streamMode then tcpReceiveQueueSize else c.responseCapacity - 1

private theorem space_congr (hsame : c'.receiving = c.receiving) : space c' = space c := by
  have hm : c'.streamMode = c.streamMode := congrArg Receiving.streamMode hsame
  have hc : c'.responseCapacity = c.responseCapacity := congrArg Receiving.responseCapacity hsame
  rw [space, space, hm, hc]

private theorem storePayload_space (h : storePayload c payload = .ok c') : space c' = space c := by
  obtain ⟨_, _, _, _, _, rfl⟩ := storePayload_ok h
  rfl

private theorem Effect.space_eq (h : Effect c seg c' n) : space c' = space c := by
  cases h with
  | quiet hsame => exact space_congr hsame
  | opened _ _ hafter =>
    exact space_congr (c := { c with synAcknowledged := true, nextRemoteSequence := _ }) hafter
  | stored c₁ _ _ _ hsame hstore => exact (storePayload_space hstore).trans (space_congr hsame)
  | closed _ _ _ hafter =>
    exact space_congr (c := { c with peerClosed := true, nextRemoteSequence := _ }) hafter

private theorem Progress.space_eq {e : Event} (h : Progress s e s') :
    space s'.client = space s.client := by
  cases h with
  | segment seg _ heffect _ => exact heffect.space_eq
  | quiet hsame _ _ => exact space_congr hsame
  | read length _ hafter _ _ => exact space_congr (c := (readQueue s.client length).2) hafter

/-- A connection with a stream that fits into the buffer, in either mode. -/
structure Fitting (isn : UInt32) (data : Bytes) (size : Nat) (s : System) : Prop where
  space_eq : space s.client = size
  good : Good (FromPeer isn data) s
  either : ∃ k, HttpRun isn data s k ∨ ShortRun isn data s k

private theorem Start.fitting (h : Start s) : Fitting isn data (space s.client) s := by
  cases hmode : s.client.streamMode with
  | true =>
    have hrun : ShortRun isn data s 0 := h.shortRun hmode
    exact ⟨rfl, hrun.peer, 0, .inr hrun⟩
  | false =>
    have hrun : HttpRun isn data s 0 := h.httpRun hmode
    exact ⟨rfl, hrun.good, 0, .inl hrun⟩

private theorem Fitting.overflow_eq_false (h : Fitting isn data n s) (hdata : data.length ≤ n) :
    s.client.overflow = false := by
  obtain ⟨k, hrun | hrun⟩ := h.either
  · have hspace := h.space_eq
    rw [space, if_neg (by rw [hrun.filled.mode]; exact Bool.false_ne_true)] at hspace
    have hk := hrun.reached.bound
    rw [hrun.filled.overflow, decide_eq_false_iff_not]
    omega
  · exact hrun.fits

private theorem Fitting.step {e : Event} (h : Fitting isn data n s) (hdata : data.length ≤ n)
    (harrive : ∀ seg, e = .arrive seg → FromPeer isn data seg) (hstep : step s e = some s') :
    Fitting isn data n s' := by
  obtain ⟨hgood, hprogress⟩ := (step_turn hstep).progress h.good harrive
  refine ⟨hprogress.space_eq.trans h.space_eq, hgood, ?_⟩
  have hspace := h.space_eq
  obtain ⟨k, hrun | hrun⟩ := h.either
  · have hhigh := hrun.filled.high
    rw [space, if_neg (by rw [hrun.filled.mode]; exact Bool.false_ne_true)] at hspace
    exact ⟨_, .inl (hrun.step (by omega) harrive hstep)⟩
  · obtain ⟨items, hqueue, -⟩ := hrun.stream.streamed
    rw [space, if_pos hqueue.mode] at hspace
    exact ⟨_, .inr (hrun.step (by omega) harrive hstep)⟩

private theorem overflow_unreachable (hstart : Start s₀) (hdata : data.length ≤ space s₀.client)
    {l : Link} (hreach : ReflTransGen (Move isn data) ⟨s₀, none, []⟩ l) :
    l.system.client.overflow = false := by
  have hinv : Fitting isn data (space s₀.client) l.system ∧
      ∀ seg ∈ l.flight, FromPeer isn data seg := by
    induction hreach with
    | refl => exact ⟨hstart.fitting, nofun⟩
    | @tail l l' _ hmove ih =>
      obtain ⟨hfit, hflight⟩ := ih
      cases hmove with
      | client harrive hstep =>
        exact ⟨hfit.step hdata (fun seg hseg => hflight seg (harrive seg hseg)) hstep, hflight⟩
      | hear => exact ⟨hfit, hflight⟩
      | @send seg hpeer =>
        refine ⟨hfit, ?_⟩
        intro seg' hseg'
        rcases mem_cons.mp hseg' with rfl | hold
        · exact hpeer
        · exact hflight seg' hold
  exact hinv.1.overflow_eq_false hdata

private theorem moves_run {events : List Event} (hrun : run events s = some s')
    (harrive : ∀ seg, Event.arrive seg ∈ events → seg ∈ flight) :
    ReflTransGen (Move isn data) ⟨s, heard, flight⟩ ⟨s', heard, flight⟩ := by
  induction events generalizing s with
  | nil =>
    cases hrun
    exact .refl
  | cons e rest ih =>
    obtain ⟨t, ht, hrest⟩ := Option.bind_eq_some_iff.mp hrun
    have hmove : Move isn data ⟨s, heard, flight⟩ ⟨t, heard, flight⟩ := by
      refine .client ?_ ht
      rintro seg rfl
      exact harrive seg mem_cons_self
    exact .head hmove (ih hrest fun seg hseg => harrive seg (mem_cons_of_mem _ hseg))

/-- The fill of the buffer that the current mode uses. -/
def used (c : Client) : Nat := if c.streamMode then c.receiveLength else c.responseLength

/-- A client with an open connection that has not sent its request, after `k` bytes. -/
structure Receptive (isn : UInt32) (size : Nat) (c : Client) (k : Nat) : Prop where
  active : c.active = true
  opened : c.synAcknowledged = true
  request : c.requestSent = false
  known : c.transmitAcknowledged = c.initialSequence + 1
  next : c.nextRemoteSequence = position isn k
  room : Room c
  space_eq : space c = size
  used_eq : used c = min k size
  overflow : c.overflow = decide (size < k)

private theorem Receptive.store (h : Receptive isn n c k) (payload : Bytes) :
    ∃ c', storePayload c payload = .ok c' ∧ Receptive isn n c' (k + payload.length) := by
  have hspace := h.space_eq
  have hused := h.used_eq
  have hover := h.overflow
  have hnext : c.nextRemoteSequence + UInt32.ofNat payload.length =
      position isn (k + payload.length) := by
    rw [h.next, position_add]
  obtain ⟨c', hstore, hroom⟩ := h.room.store payload
  refine ⟨c', hstore, ?_⟩
  have hafter := (storePayload_space hstore).trans h.space_eq
  cases hmode : c.streamMode with
  | true =>
    rw [space, if_pos hmode] at hspace
    rw [used, if_pos hmode] at hused
    obtain ⟨queue, hexplicit, -⟩ := storePayload_stream hmode
      (Window.contents c.receiveQueue tcpReceiveQueueSize c.receiveHead c.receiveLength)
      (by rw [length_map, length_range]) h.room.queue payload
    rw [hstore, Except.ok.injEq] at hexplicit
    rw [length_take] at hexplicit
    subst hexplicit
    refine ⟨h.active, h.opened, h.request, h.known, hnext, hroom, hafter, ?_, ?_⟩
    · change (if c.streamMode = true then c.receiveLength + _ else _) = _
      rw [if_pos hmode]
      omega
    · rw [hover, ← Bool.decide_or]
      apply decide_eq_decide.mpr
      omega
  | false =>
    obtain ⟨hlow, hhigh, hfits⟩ := h.room.response hmode
    have hno : ¬ c.streamMode = true := by
      rw [hmode]
      exact Bool.false_ne_true
    rw [space, if_neg hno] at hspace
    rw [used, if_neg hno] at hused
    obtain ⟨response, hexplicit, -⟩ := storePayload_response hmode
      (Window.contents c.response c.responseCapacity 0 c.responseLength)
      (by rw [length_map, length_range]) hlow hhigh hfits payload
    rw [hstore, Except.ok.injEq] at hexplicit
    rw [length_take] at hexplicit
    subst hexplicit
    refine ⟨h.active, h.opened, h.request, h.known, hnext, hroom, hafter, ?_, ?_⟩
    · change (if c.streamMode = true then _ else c.responseLength + _) = _
      rw [if_neg hno]
      omega
    · rw [hover, ← Bool.decide_or]
      apply decide_eq_decide.mpr
      omega

/-- The peer has heard the acknowledgement of `k` bytes, and the client polls the network. -/
structure Heard (isn : UInt32) (size : Nat) (l : Link) (k : Nat) : Prop where
  stack : l.system.stack = []
  listens : l.system.listening = true
  client : Receptive isn size l.system.client k
  heard : l.heard = some (acknowledge l.system.client)

private theorem listening_client (h : s.listening = true) (hactive : c.active = true)
    {wire : List Outgoing} : ({ s with client := c, wire := wire } : System).listening = true := by
  rw [System.listening, Bool.and_eq_true] at h ⊢
  exact ⟨hactive, h.2⟩

private theorem allowed_nextSegment (isn : UInt32) (c : Client) (a : UInt32) (b : UInt8) :
    Allowed isn (some (acknowledge c)) (nextSegment c a [b]) := by
  refine .inr ⟨acknowledge c, rfl, ?_⟩
  have hend : (nextSegment c a [b]).payloadEnd = c.nextRemoteSequence + 1 := by
    rw [Segment.payloadEnd, nextSegment_payloadSequence]
    rfl
  have hfirst : unacknowledged isn (acknowledge c) = c.nextRemoteSequence := by
    rw [unacknowledged, if_pos (by simp only [acknowledge, outgoing]; decide)]
    rfl
  rw [hend, hfirst, UInt32.add_comm, UInt32.add_sub_cancel]
  exact (by decide : UInt32.toNat 1 ≤ 32768)

private theorem Heard.byte {l : Link} (h : Heard isn n l k) (hk : k < data.length) :
    ∃ l', ReflTransGen (Move isn data) l l' ∧ Heard isn n l' (k + 1) := by
  obtain ⟨s, heard, flight⟩ := l
  obtain ⟨hstack, hlisten, hclient, hheard⟩ := h
  obtain ⟨c', hstore, hafter⟩ := hclient.store [data[k]]
  have hknown : receiveAcknowledgement s.client
      (nextSegment s.client (s.client.initialSequence + 1) [data[k]]) = s.client :=
    receiveAcknowledgement_known hclient.known.symm hclient.request
  have hdeliver := deliver hstack hlisten hclient.opened (cons_ne_nil data[k] [])
    ((congrArg (storePayload · _) hknown).trans hstore)
  have hcarries : Carries isn data k
      (nextSegment s.client (s.client.initialSequence + 1) [data[k]]) := by
    apply nextSegment_carries hclient.next (Nat.le_of_lt hk)
    rw [drop_eq_getElem_cons hk]
    exact ⟨_, rfl⟩
  have hallowed := allowed_nextSegment isn s.client (s.client.initialSequence + 1) data[k]
  have hsize : (nextSegment s.client (s.client.initialSequence + 1) [data[k]]).payload.length ≤
      tcpMaxPayload := Nat.succ_le_succ (Nat.zero_le _)
  generalize nextSegment s.client (s.client.initialSequence + 1) [data[k]] = seg at *
  have hsend : Move isn data ⟨s, heard, flight⟩ ⟨s, heard, seg :: flight⟩ := by
    exact .send (.inr ⟨k, hcarries⟩) hsize (hheard ▸ hallowed)
  have harrive : ∀ seg', Event.arrive seg' ∈ [Event.arrive seg, .sent true] →
      seg' ∈ seg :: flight := by
    intro seg' hseg'
    simp only [mem_cons, Event.arrive.injEq, reduceCtorEq, not_mem_nil, or_false] at hseg'
    rw [hseg']
    exact mem_cons_self
  refine ⟨⟨{ s with client := c', wire := s.wire ++ [acknowledge c'] }, some (acknowledge c'),
    seg :: flight⟩, .head hsend (.tail (moves_run hdeliver harrive) ?_), hstack, ?_, hafter, rfl⟩
  · exact .hear (mem_append_right _ (mem_singleton_self _))
  · exact listening_client hlisten hafter.active

private theorem Start.sendsSyn (h : Start s₀) : ∃ events s, (∀ seg, Event.arrive seg ∉ events) ∧
    run events s₀ = some s ∧ s.stack = [] ∧ s.listening = true ∧
      s.client = { s₀.client with nextSequence := s₀.client.initialSequence + 1 } := by
  cases h with
  | http initialSequence response responseCapacity request now timeoutTicks _ _ _ _ htimeout =>
    have htest : 0 < timeoutTicks := htimeout.1
    have hrun : run [.run now, .run now, .sent true, .run now]
        ⟨newClient initialSequence false response responseCapacity, [],
          .ready (.httpTest ⟨now, timeoutTicks, now, 0, 0, 0, false, request⟩), now, [], []⟩ =
        some ⟨{ newClient initialSequence false response responseCapacity with
            nextSequence := initialSequence + 1 }, [],
          .polling (.http ⟨now, timeoutTicks, now, 0, 1, 0, false, request⟩), now,
          [⟨0x02, initialSequence, 0, 32768, []⟩], []⟩ := by
      simp [run, steps, step, runReady, runPolled, httpBody, runSent, httpNext, newClient,
        System.goOn,
        System.emit, htest, outgoing]
    refine ⟨_, _, ?_, hrun, rfl, rfl, rfl⟩
    intro seg hseg
    simp only [mem_cons, reduceCtorEq, not_mem_nil, or_false] at hseg
  | https initialSequence response now timeoutTicks htimeout =>
    have htest : 0 < timeoutTicks := htimeout.1
    have hrun : run [.run now, .run now, .sent true, .run now]
        ⟨newClient initialSequence true response 0, [],
          .ready (.connectTest ⟨now, timeoutTicks, now, 0⟩), now, [], []⟩ =
        some ⟨{ newClient initialSequence true response 0 with
            nextSequence := initialSequence + 1 }, [],
          .polling (.connect ⟨now, timeoutTicks, now, 1⟩), now,
          [⟨0x02, initialSequence, 0, 32768, []⟩], []⟩ := by
      simp [run, steps, step, runReady, runPolled, connectBody, runSent, newClient, System.goOn,
        System.emit, htest, outgoing]
    refine ⟨_, _, ?_, hrun, rfl, rfl, rfl⟩
    intro seg hseg
    simp only [mem_cons, reduceCtorEq, not_mem_nil, or_false] at hseg

private theorem Start.receptive (h : Start s₀) (isn : UInt32)
    (hc : c = { s₀.client with nextSequence := s₀.client.initialSequence + 1 }) :
    Receptive isn (space s₀.client) (opened c isn) 0 ∧ c.synAcknowledged = false ∧
      c.requestSent = false := by
  have hroom := h.room
  subst hc
  have hnext : isn + 1 = position isn 0 := (UInt32.add_zero _).symm
  have hover : false = decide (space s₀.client < 0) := (decide_eq_false (Nat.not_lt_zero _)).symm
  have hused : 0 = min 0 (space s₀.client) := (Nat.zero_min _).symm
  cases h with
  | http | https =>
    exact ⟨⟨rfl, rfl, rfl, rfl, hnext, ⟨hroom.queue, hroom.response⟩, rfl, hused, hover⟩, rfl, rfl⟩

private theorem Start.heard_opened (hstart : Start s₀) (isn : UInt32) (data : Bytes) :
    ∃ l, ReflTransGen (Move isn data) ⟨s₀, none, []⟩ l ∧ Heard isn (space s₀.client) l 0 := by
  obtain ⟨events, s, hnone, hrun, hstack, hlisten, hclient⟩ := hstart.sendsSyn
  obtain ⟨hreceptive, hnew, hrequest⟩ := hstart.receptive isn hclient
  have hsyn := deliver_syn hstack hlisten hnew hrequest isn
  have hsend : Move isn data ⟨s, none, []⟩ ⟨s, none, [synSegment s.client isn]⟩ :=
    .send (.inr ⟨0, synSegment_carries s.client isn data⟩) (Nat.zero_le _) (.inl rfl)
  have harrive : ∀ seg, Event.arrive seg ∈ [Event.arrive (synSegment s.client isn), .sent true] →
      seg ∈ [synSegment s.client isn] := by
    intro seg hseg
    simp only [mem_cons, Event.arrive.injEq, reduceCtorEq, not_mem_nil, or_false] at hseg
    rw [hseg]
    exact mem_cons_self
  have hbefore : ReflTransGen (Move isn data) ⟨s₀, none, []⟩ ⟨s, none, []⟩ :=
    moves_run hrun fun seg hseg => absurd hseg (hnone seg)
  have hopened := (hbefore.tail hsend).trans (moves_run hsyn harrive)
  refine ⟨_, hopened.tail (.hear (mem_append_right _ (mem_singleton_self _))), ?_⟩
  exact ⟨hstack, listening_client hlisten hreceptive.active, hreceptive, rfl⟩

private theorem Start.heard_bytes (hstart : Start s₀) (isn : UInt32) (hk : k ≤ data.length) :
    ∃ l, ReflTransGen (Move isn data) ⟨s₀, none, []⟩ l ∧ Heard isn (space s₀.client) l k := by
  induction k with
  | zero => exact hstart.heard_opened isn data
  | succ k ih =>
    obtain ⟨l, hreach, hheard⟩ := ih (Nat.le_of_succ_le hk)
    obtain ⟨l', hmoves, hafter⟩ := hheard.byte hk
    exact ⟨l', hreach.trans hmoves, hafter⟩

private theorem overflow_reachable (hstart : Start s₀) (isn : UInt32)
    (hdata : space s₀.client < data.length) :
    ∃ l, ReflTransGen (Move isn data) ⟨s₀, none, []⟩ l ∧ l.system.client.overflow = true := by
  obtain ⟨l, hreach, hheard⟩ := hstart.heard_bytes isn (Nat.succ_le_of_lt hdata)
  refine ⟨l, hreach, ?_⟩
  rw [hheard.client.overflow]
  exact decide_eq_true (Nat.lt_succ_self _)

/-- A peer that keeps to the window never makes the client discard bytes if and only if its stream
fits into the buffer. -/
theorem window_respected_iff (hstart : Start s₀) :
    (∀ l, ReflTransGen (Move isn data) ⟨s₀, none, []⟩ l → l.system.client.overflow = false) ↔
      data.length ≤ space s₀.client := by
  constructor
  · intro hall
    by_contra hlong
    obtain ⟨l, hreach, hover⟩ := overflow_reachable hstart isn (Nat.lt_of_not_le hlong)
    rw [hall l hreach] at hover
    cases hover
  · intro hdata l hreach
    exact overflow_unreachable hstart hdata hreach

/-- A page of one byte fits. -/
theorem window_respected_page : Start pageStart ∧
    ∀ l, ReflTransGen (Move 100 [65]) ⟨pageStart, none, []⟩ l → l.system.client.overflow = false :=
  ⟨pageStart_start, (window_respected_iff pageStart_start).mpr (by decide)⟩

/-- Sixteen bytes for a buffer of sixteen, one of which is for the NUL. -/
theorem window_overflow : Start pageStart ∧
    ∃ l, ReflTransGen (Move 100 (replicate 16 0)) ⟨pageStart, none, []⟩ l ∧
      l.system.client.overflow = true :=
  ⟨pageStart_start, overflow_reachable pageStart_start 100 (by decide)⟩

end NasuaOS.Tcp
