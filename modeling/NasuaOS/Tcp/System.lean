import NasuaOS.Base.Runs
import NasuaOS.Tcp.Client

/-!
# The TCP client as a system

`src/resources/drivers/network/functions/tcp.cpp:305–397,595–706,770–830,920–945`. `http_get` and
`https_get` run until they poll the network or send; during a poll, and while a send waits for an
address, segments may arrive and start `handle_tcp`, which sends itself. The calls in progress are a
stack: the pending sends of handlers, innermost first, and below them the main program. Every reading
of the clock is a turn of its own. The TLS engine is whatever calls `tls_tcp_read` and
`tls_tcp_write`. What went out and what the engine was given is recorded.
-/

namespace NasuaOS.Tcp

open Base

/-- The local variables of `http_get`. -/
structure HttpLocals where
  startTick : Nat
  timeoutTicks : Nat
  lastSynTick : Nat
  lastRequestTick : Nat
  synAttempts : Nat
  requestAttempts : Nat
  requestSent : Bool
  request : Bytes

/-- The local variables of `https_get` while it connects. -/
structure ConnectLocals where
  startTick : Nat
  timeoutTicks : Nat
  lastSynTick : Nat
  synAttempts : Nat

/-- The local variables of `tls_tcp_write` for one chunk. -/
structure WriteLocals where
  deadline : Nat
  buffer : Bytes
  written : Nat
  chunk : Bytes
  segmentSequence : UInt32
  attempts : Nat
  lastSendTick : Nat

namespace WriteLocals

/-- `expected_ack`. -/
def expectedAck (w : WriteLocals) : UInt32 := w.segmentSequence + UInt32.ofNat w.chunk.length

/-- The test of the loop that waits for the acknowledgement. -/
def acknowledged (w : WriteLocals) (c : Client) : Bool :=
  !decide ((c.transmitAcknowledged - w.expectedAck).toInt32 < 0)

end WriteLocals

/-- What `http_get` remembers while it sends its FIN. -/
structure Outcome where
  timedOut : Bool
  connected : Bool
  overflow : Bool
  responseLength : Nat

/-- Places at which the main program reads the clock. -/
inductive Ready
  /-- The loop test of `http_get`. -/
  | httpTest (l : HttpLocals)
  /-- Behind the loop. -/
  | httpEnd (l : HttpLocals)
  /-- The loop test of `https_get` while it connects. -/
  | connectTest (l : ConnectLocals)
  /-- Behind that loop. -/
  | connectEnd (l : ConnectLocals)
  /-- The loop test of `tls_tcp_read`. -/
  | readTest (deadline length : Nat)
  /-- The head of the loop of `tls_tcp_write`. -/
  | writeTest (deadline : Nat) (buffer : Bytes) (written : Nat)
  /-- Behind the first send of a chunk. -/
  | chunkSent (w : WriteLocals)
  /-- The test of the loop that waits for the acknowledgement. -/
  | waitTest (w : WriteLocals)

/-- Calls of `poll_network`. -/
inductive Polling
  | http (l : HttpLocals)
  | connect (l : ConnectLocals)
  | read (deadline length : Nat)
  | write (w : WriteLocals)

/-- Calls of `send_segment`. -/
inductive Sending
  | httpSyn (l : HttpLocals) (now : Nat)
  | httpRequest (l : HttpLocals) (now : Nat)
  | httpRequestAgain (l : HttpLocals) (now : Nat)
  | httpFin (o : Outcome)
  | connectSyn (l : ConnectLocals) (now : Nat)
  | chunk (w : WriteLocals)
  | chunkAgain (w : WriteLocals) (now : Nat)
  | tlsFin (result : Int)

/-- Where the main program stands. -/
inductive Main
  | ready (p : Ready)
  | polling (p : Polling)
  | sending (o : Outgoing) (p : Sending)
  /-- The TLS engine runs; `deadline` is `tls_deadline_tick`. -/
  | engine (deadline : Nat)
  | returned (value : Int)

/-- The test at the end of the loop body. -/
def httpNext (c : Client) (l : HttpLocals) : Client × Main :=
  if c.peerClosed then (c, .ready (.httpEnd l)) else (c, .ready (.httpTest l))

/-- `client.reset = true; break;`. -/
def httpFail (c : Client) (l : HttpLocals) : Client × Main :=
  ({ c with reset := true }, .ready (.httpEnd l))

/-- The loop body behind `poll_network`, up to its send. -/
def httpBody (c : Client) (l : HttpLocals) (now : Nat) : Client × Main :=
  if !c.synAcknowledged then
    if l.synAttempts = 0 ∨ 100 ≤ now - l.lastSynTick then
      if 4 ≤ l.synAttempts then httpFail c l
      else (c, .sending (outgoing c 0x02 c.initialSequence []) (.httpSyn l now))
    else httpNext c l
  else if !l.requestSent then
    if c.peerMss < l.request.length then httpFail c l
    else
      let c := { c with nextSequence := c.requestSequence }
      (c, .sending (outgoing c 0x18 c.requestSequence l.request) (.httpRequest l now))
  else if !c.requestAcknowledged ∧ l.requestAttempts < 4 ∧ 100 ≤ now - l.lastRequestTick then
    (c, .sending (outgoing c 0x18 c.requestSequence l.request) (.httpRequestAgain l now))
  else httpNext c l

/-- `client.active = false` and the return value. -/
def httpReturn (c : Client) (o : Outcome) : Client × Main :=
  let value : Int :=
    if o.overflow then -5
    else if o.timedOut then -4
    else if c.reset || !o.connected || o.responseLength == 0 then if o.connected then -4 else -3
    else o.responseLength
  ({ c with active := false }, .returned value)

/-- Behind the loop: what is remembered, and the FIN. -/
def httpClose (c : Client) (o : Outcome) : Client × Main :=
  if o.connected && !c.localFinSent then
    (c, .sending (outgoing c 0x11 c.nextSequence []) (.httpFin o))
  else httpReturn c o

/-- The loop body of `https_get` behind `poll_network`, up to its send. -/
def connectBody (c : Client) (l : ConnectLocals) (now : Nat) : Client × Main :=
  if l.synAttempts = 0 ∨ 100 ≤ now - l.lastSynTick then
    if 4 ≤ l.synAttempts then ({ c with reset := true }, .ready (.connectEnd l))
    else (c, .sending (outgoing c 0x02 c.initialSequence []) (.connectSyn l now))
  else (c, .ready (.connectTest l))

/-- The bytes in the receive queue, oldest first. -/
def queued (c : Client) : Bytes :=
  (List.range c.receiveLength).map fun i =>
    c.receiveQueue ((c.receiveHead + i) % tcpReceiveQueueSize)

/-- The copy loop of `tls_tcp_read`. -/
def readQueue (c : Client) (length : Nat) : Bytes × Client :=
  let readLength := min length c.receiveLength
  ((queued c).take readLength, { c with
      receiveHead := (c.receiveHead + readLength) % tcpReceiveQueueSize
      receiveLength := c.receiveLength - readLength })

/-- One round of `tls_tcp_write`: the next chunk, or the end. -/
def writeNext (c : Client) (deadline : Nat) (buffer : Bytes) (written : Nat) (now : Nat) :
    Client × Main :=
  if written < buffer.length then
    if !c.active || c.reset || decide (deadline ≤ now) then (c, .engine deadline)
    else
      let chunk := (buffer.drop written).take c.peerMss
      (c, .sending (outgoing c 0x18 c.nextSequence chunk)
        (.chunk ⟨deadline, buffer, written, chunk, c.nextSequence, 0, 0⟩))
  else (c, .engine deadline)

/-- The loop that waits for the acknowledgement. -/
def waitNext (c : Client) (w : WriteLocals) (now : Nat) : Client × Main :=
  if w.acknowledged c then
    (c, .ready (.writeTest w.deadline w.buffer (w.written + w.chunk.length)))
  else if c.reset || decide (w.deadline ≤ now) then (c, .engine w.deadline)
  else (c, .polling (.write w))

/-- The body of that loop behind `poll_network`. -/
def waitBody (c : Client) (w : WriteLocals) (now : Nat) : Client × Main :=
  if w.acknowledged c then
    (c, .ready (.writeTest w.deadline w.buffer (w.written + w.chunk.length)))
  else if 50 ≤ now - w.lastSendTick then
    if 4 ≤ w.attempts then (c, .engine w.deadline)
    else (c, .sending (outgoing c 0x18 w.segmentSequence w.chunk) (.chunkAgain w now))
  else (c, .ready (.waitTest w))

/-- The end of `https_get`. -/
def tlsClose (c : Client) (result : Int) : Client × Main :=
  if c.synAcknowledged && !c.localFinSent then
    (c, .sending (outgoing c 0x11 c.nextSequence []) (.tlsFin result))
  else ({ c with active := false }, .returned result)

/-- The main program goes on at a time. The list is what a read gave to the TLS engine. -/
def runReady (c : Client) (now : Nat) : Ready → (Client × Main) × Bytes
  | .httpTest l =>
    ((c, if !c.reset ∧ now - l.startTick < l.timeoutTicks then .polling (.http l)
      else .ready (.httpEnd l)), [])
  | .httpEnd l =>
    (httpClose c ⟨decide (l.timeoutTicks ≤ now - l.startTick), c.synAcknowledged, c.overflow,
      c.responseLength⟩, [])
  | .connectTest l =>
    ((c, if !c.reset ∧ !c.synAcknowledged ∧ now - l.startTick < l.timeoutTicks then
        .polling (.connect l)
      else .ready (.connectEnd l)), [])
  | .connectEnd l =>
    if c.synAcknowledged then ((c, .engine (l.startTick + l.timeoutTicks)), [])
    else
      (({ c with active := false },
        .returned (if l.timeoutTicks ≤ now - l.startTick then -4 else -3)), [])
  | .readTest deadline length =>
    if c.receiveLength = 0 then
      if c.reset || c.overflow || c.peerClosed || decide (deadline ≤ now) then
        ((c, .engine deadline), [])
      else ((c, .polling (.read deadline length)), [])
    else (((readQueue c length).2, .engine deadline), (readQueue c length).1)
  | .writeTest deadline buffer written => (writeNext c deadline buffer written now, [])
  | .chunkSent w => ((c, .ready (.waitTest { w with lastSendTick := now })), [])
  | .waitTest w => (waitNext c w now, [])

/-- `poll_network` returns, and the clock is read. -/
def runPolled (c : Client) (now : Nat) : Polling → Client × Main
  | .http l => httpBody c l now
  | .connect l => connectBody c l now
  | .read deadline length => (c, .ready (.readTest deadline length))
  | .write w => waitBody c w now

/-- `send_segment` returns to the main program. -/
def runSent (c : Client) (sent : Bool) : Sending → Client × Main
  | .httpSyn l now =>
    if sent then
      httpNext
        { c with
          nextSequence := if l.synAttempts = 0 then c.initialSequence + 1 else c.nextSequence }
        { l with synAttempts := l.synAttempts + 1, lastSynTick := now }
    else httpFail c l
  | .httpRequest l now =>
    if sent then
      httpNext
        { c with
          nextSequence := c.nextSequence + UInt32.ofNat l.request.length
          requestSent := true }
        { l with
          requestSent := true
          requestAttempts := l.requestAttempts + 1
          lastRequestTick := now }
    else httpFail c l
  | .httpRequestAgain l now =>
    if sent then
      httpNext c { l with requestAttempts := l.requestAttempts + 1, lastRequestTick := now }
    else httpFail c l
  | .httpFin o =>
    httpReturn (if sent then { c with nextSequence := c.nextSequence + 1 } else c) o
  | .connectSyn l now =>
    if sent then
      ({ c with nextSequence := if l.synAttempts = 0 then c.initialSequence + 1 else c.nextSequence },
        .ready (.connectTest { l with synAttempts := l.synAttempts + 1, lastSynTick := now }))
    else ({ c with reset := true }, .ready (.connectEnd l))
  | .chunk w =>
    if sent then
      ({ c with nextSequence := w.expectedAck }, .ready (.chunkSent { w with attempts := 1 }))
    else (c, .engine w.deadline)
  | .chunkAgain w now =>
    if sent then
      (c, .ready (.waitTest { w with attempts := w.attempts + 1, lastSendTick := now }))
    else (c, .engine w.deadline)
  | .tlsFin result =>
    ({ c with
        nextSequence := if sent then c.nextSequence + 1 else c.nextSequence
        localFinSent := c.localFinSent || sent
        active := false }, .returned result)

/-- What the TLS engine does next. -/
inductive EngineCall
  /-- `tls_tcp_read` with a buffer of a length. -/
  | read (length : Nat)
  /-- `tls_tcp_write`. -/
  | write (buffer : Bytes)
  /-- `https_get` ends without closing the connection. -/
  | abort (result : Int)
  /-- `https_get` ends. -/
  | finish (result : Int)
  deriving DecidableEq, Repr

/-- A call of the TLS engine, up to the first reading of the clock. -/
def runEngine (c : Client) (deadline : Nat) : EngineCall → Client × Main
  | .read length =>
    if length = 0 ∨ 0x7FFFFFFF < length then (c, .engine deadline)
    else (c, .ready (.readTest deadline length))
  | .write buffer =>
    if 0x7FFFFFFF < buffer.length then (c, .engine deadline)
    else (c, .ready (.writeTest deadline buffer 0))
  | .abort result => ({ c with active := false }, .returned result)
  | .finish result => tlsClose c result

/-- The client, the calls in progress, the clock, what went out, and what the engine was given. -/
structure System where
  client : Client
  stack : List Pending
  main : Main
  clock : Nat
  wire : List Outgoing
  received : Bytes

/-- What can happen next. -/
inductive Event
  /-- A segment that passes the checks of `handle_tcp` arrives. -/
  | arrive (s : Segment)
  /-- The innermost call of `send_segment` returns. -/
  | sent (ok : Bool)
  /-- The main program goes on at a time. -/
  | run (now : Nat)
  /-- The TLS engine makes a call. -/
  | engine (call : EngineCall)

namespace System

/-- The client and the main program after a turn of the main program. -/
def goOn (s : System) (r : Client × Main) : System := { s with client := r.1, main := r.2 }

/-- The client after a part of `handle_tcp`, and the send it stopped at. -/
def handled (s : System) (r : Client × Option Pending) : System :=
  { s with client := r.1, stack := r.2.toList ++ s.stack }

/-- The network is polled: by the main program, or by a send that waits for an address. -/
def listening (s : System) : Bool :=
  s.client.active &&
    match s.stack, s.main with
    | _ :: _, _ => true
    | [], .polling _ => true
    | [], .sending _ _ => true
    | [], _ => false

/-- What a send leaves on the wire. -/
def emit (s : System) (ok : Bool) (o : Outgoing) : System :=
  { s with wire := if ok then s.wire ++ [o] else s.wire }

end System

/-- One turn; `none` when it is not possible. -/
def step (s : System) : Event → Option System
  | .arrive segment =>
    if s.listening then
      match handleSegment s.client segment with
      | .ok r => some (s.handled r)
      | .error _ => none
    else none
  | .sent ok =>
    match s.stack, s.main with
    | p :: rest, _ =>
      match resume p.next ok s.client with
      | .ok r => some (({ s with stack := rest }.emit ok p.outgoing).handled r)
      | .error _ => none
    | [], .sending o p => some ((s.emit ok o).goOn (runSent s.client ok p))
    | [], _ => none
  | .run now =>
    if s.clock ≤ now then
      match s.stack, s.main with
      | [], .ready p =>
        let r := runReady s.client now p
        some { s.goOn r.1 with clock := now, received := s.received ++ r.2 }
      | [], .polling p => some { s.goOn (runPolled s.client now p) with clock := now }
      | _, _ => none
    else none
  | .engine call =>
    match s.stack, s.main with
    | [], .engine deadline => some (s.goOn (runEngine s.client deadline call))
    | _, _ => none

/-- The client that a new connection starts with. -/
def newClient (initialSequence : UInt32) (streamMode : Bool) (response : Nat → UInt8)
    (responseCapacity : Nat) : Client where
  active := true
  synAcknowledged := false
  reset := false
  requestAcknowledged := false
  peerClosed := false
  localFinSent := false
  overflow := false
  requestSent := false
  streamMode := streamMode
  peerMss := tcpMaxPayload
  initialSequence := initialSequence
  nextSequence := initialSequence
  nextRemoteSequence := 0
  requestSequence := initialSequence + 1
  response := response
  responseCapacity := responseCapacity
  responseLength := 0
  transmitAcknowledged := 0
  receiveHead := 0
  receiveLength := 0
  receiveQueue := fun _ => 0

/-- The calls of the two functions that get as far as a connection. -/
inductive Start : System → Prop
  | http (initialSequence : UInt32) (response : Nat → UInt8) (responseCapacity : Nat)
    (request : Bytes) (now timeoutTicks : Nat) (hlow : 2 ≤ responseCapacity)
    (hhigh : responseCapacity ≤ 0x7FFFFFFF) (hempty : request ≠ [])
    (hrequest : request.length < 1024) (htimeout : 1 ≤ timeoutTicks ∧ timeoutTicks ≤ 3000) :
    Start ⟨newClient initialSequence false response responseCapacity, [],
      .ready (.httpTest ⟨now, timeoutTicks, now, 0, 0, 0, false, request⟩), now, [], []⟩
  | https (initialSequence : UInt32) (response : Nat → UInt8) (now timeoutTicks : Nat)
    (htimeout : 1 ≤ timeoutTicks ∧ timeoutTicks ≤ 3000) :
    Start ⟨newClient initialSequence true response 0, [],
      .ready (.connectTest ⟨now, timeoutTicks, now, 0⟩), now, [], []⟩

/-- Turns in a row. -/
def run : List Event → System → Option System := steps step

end NasuaOS.Tcp
