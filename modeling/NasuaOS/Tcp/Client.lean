import NasuaOS.Base.Reading

/-!
# The TCP client's receive handler

`src/resources/drivers/network/functions/tcp.cpp:16–50,93–114,403–522`. `handle_tcp` works on the one
client of the driver. It sends while it runs, and sending may wait for an address and poll the
network meanwhile, so the handler is cut at its calls of `send_segment`: it runs up to the first of
them, and `resume` runs it from the end of one to the next. A segment is given by its fields; how
they are read from a packet is the subject of the network modules. Stores are checked against the
size of their buffer.
-/

namespace NasuaOS.Tcp

open Base

/-- `tcp_max_payload`. -/
def tcpMaxPayload : Nat := 1460

/-- `tcp_receive_queue_size`. -/
def tcpReceiveQueueSize : Nat := 16384

/-- `TCPClient`, without the addresses and ports that `handle_tcp` tests before it gets here. -/
structure Client where
  active : Bool
  synAcknowledged : Bool
  reset : Bool
  requestAcknowledged : Bool
  peerClosed : Bool
  localFinSent : Bool
  overflow : Bool
  requestSent : Bool
  streamMode : Bool
  peerMss : Nat
  initialSequence : UInt32
  nextSequence : UInt32
  nextRemoteSequence : UInt32
  requestSequence : UInt32
  response : Nat → UInt8
  responseCapacity : Nat
  responseLength : Nat
  transmitAcknowledged : UInt32
  receiveHead : Nat
  receiveLength : Nat
  receiveQueue : Nat → UInt8

/-- The fields of a segment that passed the checks; `mss` is what its options say. -/
structure Segment where
  flags : UInt8
  sequence : UInt32
  acknowledgement : UInt32
  mss : Nat
  payload : Bytes
  deriving DecidableEq, Repr

namespace Segment

/-- `flags & 0x01`. -/
def fin (s : Segment) : Bool := s.flags &&& 1 != 0

/-- `flags & 0x02`. -/
def syn (s : Segment) : Bool := s.flags &&& 2 != 0

/-- `flags & 0x04`. -/
def rst (s : Segment) : Bool := s.flags &&& 4 != 0

/-- `flags & 0x10`. -/
def ack (s : Segment) : Bool := s.flags &&& 16 != 0

/-- The sequence number of the first payload byte. -/
def payloadSequence (s : Segment) : UInt32 := s.sequence + if s.syn then 1 else 0

/-- The sequence number behind the payload. -/
def payloadEnd (s : Segment) : UInt32 := s.payloadSequence + UInt32.ofNat s.payload.length

end Segment

/-- A segment that `send_segment` builds. -/
structure Outgoing where
  flags : UInt8
  sequence : UInt32
  acknowledgement : UInt32
  window : Nat
  payload : Bytes
  deriving DecidableEq, Repr

/-- What `send_segment` writes into the header. -/
def outgoing (c : Client) (flags : UInt8) (sequence : UInt32) (payload : Bytes) : Outgoing :=
  ⟨flags, sequence, c.nextRemoteSequence, 32768, payload⟩

/-- `send_segment(0x10, client.next_sequence)`. -/
def acknowledge (c : Client) : Outgoing := outgoing c 0x10 c.nextSequence []

/-- Where `handle_tcp` goes on when `send_segment` returns. -/
inductive Point
  /-- Behind the first acknowledgement of a SYN. -/
  | synAcknowledged (s : Segment)
  /-- Behind the acknowledgement of a payload. -/
  | payloadAcknowledged (s : Segment)
  /-- Behind the acknowledgement of the FIN that closes the stream. -/
  | finAcknowledged
  /-- Behind the client's own FIN. -/
  | finSent
  /-- At the end. -/
  | done
  deriving DecidableEq, Repr

/-- A call of `send_segment` in progress, and what follows it. -/
structure Pending where
  outgoing : Outgoing
  next : Point
  deriving DecidableEq, Repr

/-- Store one byte into an array. -/
def putAt (size : Nat) (memory : Nat → UInt8) (index : Nat) (value : UInt8) :
    Reading (Nat → UInt8) :=
  if index < size then .ok (Function.update memory index value) else .error .outOfBounds

/-- The copy loops: byte `i` goes to the index `slot i`. -/
def copyBytes (size : Nat) (slot : Nat → Nat) :
    Nat → Bytes → (Nat → UInt8) → Reading (Nat → UInt8)
  | _, [], memory => .ok memory
  | i, b :: bytes, memory => do
    let memory ← putAt size memory (slot i) b
    copyBytes size slot (i + 1) bytes memory

/-- A difference of two 32-bit numbers. -/
def sub32 (a b : Nat) : Nat := (a + 2 ^ 32 - b) % 2 ^ 32

/-- The payload of a segment that is in order. `tcp.cpp:460–495`. -/
def storePayload (c : Client) (payload : Bytes) : Reading Client :=
  if c.streamMode then do
    let copied := payload.take (sub32 tcpReceiveQueueSize c.receiveLength)
    let slot i := (c.receiveHead + c.receiveLength + i) % tcpReceiveQueueSize
    let queue ← copyBytes tcpReceiveQueueSize slot 0 copied c.receiveQueue
    .ok { c with
      receiveQueue := queue
      receiveLength := c.receiveLength + copied.length
      overflow := c.overflow || decide (copied.length < payload.length)
      nextRemoteSequence := c.nextRemoteSequence + UInt32.ofNat payload.length }
  else do
    let copied := payload.take (sub32 (sub32 c.responseCapacity 1) c.responseLength)
    let slot i := c.responseLength + i
    let response ← copyBytes c.responseCapacity slot 0 copied c.response
    let response ← putAt c.responseCapacity response (c.responseLength + copied.length) 0
    .ok { c with
      response := response
      responseLength := c.responseLength + copied.length
      overflow := c.overflow || decide (copied.length < payload.length)
      nextRemoteSequence := c.nextRemoteSequence + UInt32.ofNat payload.length }

/-- The acknowledgement number of a segment. `tcp.cpp:443–454`. -/
def receiveAcknowledgement (c : Client) (s : Segment) : Client :=
  if s.ack && c.synAcknowledged then
    let advance := decide (0 < (s.acknowledgement - c.transmitAcknowledged).toInt32) &&
      decide (0 ≤ (c.nextSequence - s.acknowledgement).toInt32)
    { c with
      transmitAcknowledged := if advance then s.acknowledgement else c.transmitAcknowledged
      requestAcknowledged :=
        c.requestAcknowledged || (c.requestSent && s.acknowledgement == c.nextSequence) }
  else c

/-- The FIN of a segment. `tcp.cpp:501–521`. -/
def receiveFin (c : Client) (s : Segment) : Client × Option Pending :=
  if s.fin then
    if s.payloadEnd = c.nextRemoteSequence then
      let c := { c with nextRemoteSequence := c.nextRemoteSequence + 1, peerClosed := true }
      (c, some ⟨acknowledge c, .finAcknowledged⟩)
    else (c, some ⟨acknowledge c, .done⟩)
  else (c, none)

/-- Only a payload that starts at the next byte is stored. `tcp.cpp:460`. -/
def acceptPayload (c : Client) (s : Segment) : Reading Client :=
  if s.payloadSequence = c.nextRemoteSequence then storePayload c s.payload else .ok c

/-- The payload of a segment, and its FIN when there is no payload. `tcp.cpp:456–499`. -/
def receivePayload (c : Client) (s : Segment) : Reading (Client × Option Pending) :=
  if s.payload = [] then .ok (receiveFin c s)
  else do
    let c ← acceptPayload c s
    .ok (c, some ⟨acknowledge c, .payloadAcknowledged s⟩)

/-- `handle_tcp` behind its checks, up to the first call of `send_segment`. -/
def handleSegment (c : Client) (s : Segment) : Reading (Client × Option Pending) :=
  if s.rst then .ok ({ c with reset := true }, none)
  else if (s.syn && s.ack) && !c.synAcknowledged && s.acknowledgement == c.initialSequence + 1 then
    let c := { c with
      synAcknowledged := true
      nextRemoteSequence := s.sequence + 1
      transmitAcknowledged := c.initialSequence + 1
      peerMss := s.mss }
    .ok (c, some ⟨acknowledge c, .synAcknowledged s⟩)
  else if (s.syn && s.ack) && c.synAcknowledged && s.acknowledgement == c.initialSequence + 1 then
    .ok (c, some ⟨acknowledge c, .done⟩)
  else if !c.synAcknowledged then .ok (c, none)
  else receivePayload (receiveAcknowledgement c s) s

/-- `handle_tcp` from the end of a call of `send_segment`, which returned `sent`, to the next. -/
def resume (point : Point) (sent : Bool) (c : Client) : Reading (Client × Option Pending) :=
  match point with
  | .synAcknowledged s => receivePayload (receiveAcknowledgement c s) s
  | .payloadAcknowledged s => .ok (receiveFin c s)
  | .finAcknowledged =>
    if c.localFinSent then .ok (c, none)
    else .ok (c, some ⟨outgoing c 0x11 c.nextSequence [], .finSent⟩)
  | .finSent =>
    if sent then .ok ({ c with nextSequence := c.nextSequence + 1, localFinSent := true }, none)
    else .ok (c, none)
  | .done => .ok (c, none)

end NasuaOS.Tcp
