import NasuaOS.Virtio.Delivery

/-!
# The virtio transmit queue

`src/resources/drivers/ethernet/controllers/virtio-net/driver.cpp:62–70,290–303,355–397`. `send`
copies a frame into the buffer of a descriptor that is not busy and puts the descriptor on the
available ring; the device takes descriptors from there in order and returns them, in any order, on
the used ring. Device and driver take turns: the device may act between any two rounds of the loop
that reclaims descriptors, and between filling a buffer and publishing it. `poll` reclaims too,
between two calls of `send`. What the device read and what `send` accepted is recorded in `History`,
which no code reads.
-/

namespace NasuaOS.Virtio.Transmit

open Function

/-- `MaximumFrameLength`. -/
def maximumFrameLength : Nat := 1514

/-- The bytes of the virtio header before a frame. -/
def headerLength : Nat := 10

/-- Where the call of `send` in progress stands. -/
inductive Phase
  | idle
  /-- In `reclaim_transmit_descriptors`, with the frame to send. -/
  | reclaiming (frame : List UInt8)
  /-- The buffer is filled, the descriptor is not on the ring yet. -/
  | listing (descriptor : Nat) (frame : List UInt8)
  deriving DecidableEq, Repr

/-- What happened so far: the frames of the calls that returned true, and what the device read for
each descriptor it took. -/
structure History where
  accepted : List (List UInt8)
  read : List (List UInt8)

/-- The globals of the driver, the memory it shares with the device, the device, and history. -/
structure World where
  queue : Queue
  available : Bool
  busy : Nat → Bool
  cursor : Nat
  buffers : Nat → Nat → UInt8
  lengths : Nat → Nat
  failures : Nat
  phase : Phase
  result : Option Bool
  deviceIndex : Nat
  held : List Nat
  history : History

/-- What a descriptor points to. -/
def contents (s : World) (descriptor : Nat) : List UInt8 :=
  (List.range (s.lengths descriptor)).map (s.buffers descriptor)

/-- A frame with the header before it. -/
def withHeader (frame : List UInt8) : List UInt8 := List.replicate headerLength 0 ++ frame

/-- The check at the head of `send`; no frame stands for the null pointer. -/
def sendable (s : World) (frame : Option (List UInt8)) : Bool :=
  match frame with
  | none => false
  | some bytes => s.available && decide (bytes.length ≠ 0 ∧ bytes.length ≤ maximumFrameLength)

/-- The search loop of `send`: the first descriptor from the cursor on that is not busy. -/
def findDescriptor (s : World) : Option Nat :=
  ((List.range s.queue.size).map fun attempt => (s.cursor + attempt) % s.queue.size).find?
    fun descriptor => !s.busy descriptor

/-- A buffer after the header is cleared and the frame copied behind it. -/
def fillBuffer (buffer : Nat → UInt8) (frame : List UInt8) : Nat → UInt8 := fun k =>
  if k < headerLength then 0
  else if k < headerLength + frame.length then frame.getD (k - headerLength) 0
  else buffer k

/-- `send` up to the ring: fill the buffer and mark the descriptor busy. -/
def fill (s : World) (descriptor : Nat) (frame : List UInt8) : World :=
  { s with
    buffers := update s.buffers descriptor (fillBuffer (s.buffers descriptor) frame)
    lengths := update s.lengths descriptor (frame.length + headerLength)
    busy := update s.busy descriptor true
    cursor := (descriptor + 1) % s.queue.size
    phase := .listing descriptor frame }

/-- The end of `send`: put the descriptor on the available ring. -/
def list (s : World) (descriptor : Nat) (frame : List UInt8) : World :=
  { s with
    queue := { s.queue with
      availableRing :=
        setSlot s.queue.availableRing (s.queue.availableIndex % s.queue.size) descriptor
      availableIndex := (s.queue.availableIndex + 1) % 2 ^ 16 }
    phase := .idle
    result := some true
    history := { s.history with accepted := s.history.accepted ++ [frame] } }

/-- One round of `reclaim_transmit_descriptors`. -/
def reclaim (s : World) : World :=
  let descriptor := (s.queue.usedRing (s.queue.lastUsed % s.queue.size)).id
  { s with
    busy :=
      if descriptor < s.queue.size then update s.busy descriptor false else s.busy
    queue := { s.queue with lastUsed := (s.queue.lastUsed + 1) % 2 ^ 16 } }

/-- The device takes the next descriptor of the available ring and reads what it points to. -/
def take (s : World) : World :=
  let descriptor := s.queue.availableRing (s.deviceIndex % s.queue.size)
  { s with
    deviceIndex := (s.deviceIndex + 1) % 2 ^ 16
    held := s.held ++ [descriptor]
    history := { s.history with read := s.history.read ++ [contents s descriptor] } }

/-- The device returns a descriptor on the used ring. -/
def complete (s : World) (id length : Nat) : World :=
  { s with
    queue := { s.queue with
      usedRing := setSlot s.queue.usedRing (s.queue.usedIndex % s.queue.size) ⟨id, length⟩
      usedIndex := (s.queue.usedIndex + 1) % 2 ^ 16 }
    held := s.held.erase id }

/-- Turns of the callers of `send`, of `send` itself, and of the device. -/
inductive Event
  /-- `send` is called. -/
  | call (frame : Option (List UInt8))
  /-- The loop of `reclaim_transmit_descriptors`, in `send` or in `poll`, finds a returned
  descriptor. -/
  | reclaim
  /-- The loop finds no more; the search follows. -/
  | search
  /-- The descriptor goes on the ring. -/
  | list
  /-- The device takes a descriptor. -/
  | take
  /-- The device returns a descriptor. -/
  | complete (id length : Nat)
  deriving DecidableEq, Repr

/-- One turn; `none` when it is not possible. The device takes only what is on the ring, and returns
only what it took. -/
def step (s : World) : Event → Option World
  | .call frame =>
    match s.phase, frame with
    | .idle, some bytes =>
      if sendable s (some bytes) then some { s with phase := .reclaiming bytes, result := none }
      else some { s with result := some false }
    | .idle, none => some { s with result := some false }
    | _, _ => none
  | .reclaim =>
    match s.phase with
    | .listing _ _ => none
    | _ => if s.queue.lastUsed ≠ s.queue.usedIndex then some (reclaim s) else none
  | .search =>
    match s.phase with
    | .reclaiming frame =>
      if s.queue.lastUsed = s.queue.usedIndex then
        match findDescriptor s with
        | some descriptor => some (fill s descriptor frame)
        | none =>
          some { s with
            failures := (s.failures + 1) % 2 ^ 32
            phase := .idle
            result := some false }
      else none
    | _ => none
  | .list =>
    match s.phase with
    | .listing descriptor frame => some (list s descriptor frame)
    | _ => none
  | .take => if s.deviceIndex ≠ s.queue.availableIndex then some (take s) else none
  | .complete id length => if id ∈ s.held then some (complete s id length) else none

/-- `prepare_queue` for sending, after `init`: nothing is busy, the rings are zero. -/
def prepareQueue (size : Nat) (buffers : Nat → Nat → UInt8) : World where
  queue := ⟨size, 0, 0, fun _ => ⟨0, 0⟩, 0, fun _ => 0⟩
  available := true
  busy := fun _ => false
  cursor := 0
  buffers := buffers
  lengths := fun _ => 0
  failures := 0
  phase := .idle
  result := none
  deviceIndex := 0
  held := []
  history := ⟨[], []⟩

/-- States that some row of turns leads to. -/
inductive Reachable (size : Nat) : World → Prop
  | start (buffers : Nat → Nat → UInt8) : Reachable size (prepareQueue size buffers)
  | step {s s' : World} {e : Event} (h : Reachable size s) (hs : step s e = some s') :
    Reachable size s'

/-- Descriptors on the available ring that the device has not taken yet, in order. -/
def waiting (s : World) : List Nat :=
  (List.range ((s.queue.availableIndex + 2 ^ 16 - s.deviceIndex) % 2 ^ 16)).map fun j =>
    s.queue.availableRing ((s.deviceIndex + j) % s.queue.size)

/-- The device owns a descriptor from its index on the available ring to its return. -/
def Owned (s : World) (descriptor : Nat) : Prop :=
  descriptor ∈ waiting s ∨ descriptor ∈ s.held

end NasuaOS.Virtio.Transmit
