import Mathlib.Algebra.Ring.Nat
import Mathlib.Data.List.Nodup
import Mathlib.Data.List.Range

/-!
# The virtio receive queue

`src/resources/drivers/ethernet/controllers/virtio-net/driver.cpp:115–185,399–442`.
The device appends completed descriptors to the used ring while `poll` consumes them. The
receive handler may call `poll` again (through `send_ipv4_packet` and `resolve_arp`), so the
polls in progress are a stack of activations; device and driver take turns in any order. What
has been completed, handed over and put back is recorded in `History`, which no code reads.
-/

namespace NasuaOS.Virtio

/-- `VirtqUsedElement`. -/
structure UsedElement where
  id : Nat
  length : Nat
  deriving DecidableEq, Repr

/-- `Queue`: the fields that receiving uses; indices are 16-bit. -/
structure Queue where
  size : Nat
  lastUsed : Nat
  usedIndex : Nat
  usedRing : Nat → UsedElement
  availableIndex : Nat
  availableRing : Nat → Nat

/-- `ReceiveBufferLength`: a frame and the ten bytes of the virtio header before it. -/
def receiveBufferLength : Nat := 10 + 1514

/-- The test before an element is handed over. `driver.cpp:412`. -/
def accepted (size : Nat) (e : UsedElement) : Bool :=
  decide (e.id < size ∧ 10 ≤ e.length ∧ e.length ≤ receiveBufferLength)

/-- One call of `poll` in progress. -/
inductive Activation
  /-- At the loop head. -/
  | polling
  /-- In the receive handler, with the element it was called for. -/
  | handling (element : UsedElement) (tag : Option Nat)
  /-- The descriptor is available again, `last_used` is still to be advanced. -/
  | published
  deriving DecidableEq, Repr

/-- What happened so far. Completions are numbered; `tags` is the number of the completion that
a used slot holds. -/
structure History where
  completed : Nat
  tags : Nat → Option Nat
  delivered : List (Option Nat)
  recycled : List (Option Nat)
  advances : Nat

/-- Queue, descriptors the device holds, polls in progress (innermost first), and history. -/
structure World where
  queue : Queue
  owned : List Nat
  stack : List Activation
  history : History

/-- Turns of the device, of the code that calls `poll`, and of `poll` itself. -/
inductive Event
  /-- The device completes a descriptor. -/
  | complete (id length : Nat)
  /-- `poll` is called, by the kernel or by the receive handler. -/
  | call
  /-- `poll` tests the loop condition and takes one element. -/
  | iterate
  /-- The receive handler returns; the descriptor is put back. -/
  | handlerReturn
  /-- `last_used++`. -/
  | advance
  deriving DecidableEq, Repr

/-- Replace one ring slot. -/
def setSlot {α : Type} (ring : Nat → α) (slot : Nat) (value : α) : Nat → α :=
  fun k => if k = slot then value else ring k

/-- Put a descriptor back on the available ring. `driver.cpp:416–418,426–427`. -/
def publish (s : World) (id : Nat) (tag : Option Nat) : World :=
  { s with
    queue := { s.queue with
      availableRing := setSlot s.queue.availableRing (s.queue.availableIndex % s.queue.size) id
      availableIndex := (s.queue.availableIndex + 1) % 2 ^ 16 }
    owned := s.owned ++ [id]
    history := { s.history with recycled := s.history.recycled ++ [tag] } }

/-- The device appends to the used ring. -/
def append (s : World) (id length : Nat) : World :=
  { s with
    queue := { s.queue with
      usedRing := setSlot s.queue.usedRing (s.queue.usedIndex % s.queue.size) ⟨id, length⟩
      usedIndex := (s.queue.usedIndex + 1) % 2 ^ 16 }
    owned := s.owned.erase id
    history := { s.history with
      completed := s.history.completed + 1
      tags := setSlot s.history.tags (s.queue.usedIndex % s.queue.size)
        (some s.history.completed) } }

/-- One turn; `none` when it is not possible. A device completes only a descriptor it holds, with
a length that fits the buffer. -/
def step (s : World) : Event → Option World
  | .complete id length =>
    if id ∈ s.owned ∧ accepted s.queue.size ⟨id, length⟩ = true then some (append s id length)
    else none
  | .call =>
    match s.stack with
    | [] => some { s with stack := [.polling] }
    | .handling element tag :: rest =>
      some { s with stack := .polling :: .handling element tag :: rest }
    | _ => none
  | .iterate =>
    match s.stack with
    | .polling :: rest =>
      if s.queue.lastUsed = s.queue.usedIndex then some { s with stack := rest }
      else
        let slot := s.queue.lastUsed % s.queue.size
        let element := s.queue.usedRing slot
        let tag := s.history.tags slot
        if accepted s.queue.size element = true then
          some { s with
            stack := .handling element tag :: rest
            history := { s.history with delivered := s.history.delivered ++ [tag] } }
        else if element.id < s.queue.size then
          some { publish s element.id tag with stack := .published :: rest }
        else some { s with stack := .published :: rest }
    | _ => none
  | .handlerReturn =>
    match s.stack with
    | .handling element tag :: rest =>
      some { publish s element.id tag with stack := .published :: rest }
    | _ => none
  | .advance =>
    match s.stack with
    | .published :: rest =>
      some { s with
        queue := { s.queue with lastUsed := (s.queue.lastUsed + 1) % 2 ^ 16 }
        stack := .polling :: rest
        history := { s.history with advances := s.history.advances + 1 } }
    | _ => none

/-- Turns in a row. -/
def run : List Event → World → Option World
  | [], s => some s
  | e :: rest, s => (step s e).bind (run rest)

/-- `prepare_queue` for receiving: all descriptors are available, the rings are zero. -/
def prepareQueue (size : Nat) : World where
  queue := ⟨size, 0, 0, fun _ => ⟨0, 0⟩, size, fun k => if k < size then k else 0⟩
  owned := List.range size
  stack := []
  history := ⟨0, fun _ => none, [], [], 0⟩

/-- Queue sizes that `prepare_queue` accepts. `driver.cpp:119–123`. -/
def ValidSize (size : Nat) : Prop := 8 ≤ size ∧ size ≤ 256 ∧ size &&& (size - 1) = 0

instance (size : Nat) : Decidable (ValidSize size) := inferInstanceAs (Decidable (_ ∧ _))

/-- No turn of the row calls `poll` while another call is in progress. -/
def Unnested : List Event → World → Prop
  | [], _ => True
  | e :: rest, s =>
    (e = .call → s.stack = []) ∧ ∀ s', step s e = some s' → Unnested rest s'

instance decidableUnnested : (events : List Event) → (s : World) → Decidable (Unnested events s)
  | [], _ => isTrue trivial
  | e :: rest, s =>
    have : Decidable (∀ s', step s e = some s' → Unnested rest s') :=
      match h : step s e with
      | none => isTrue fun _ hs => by cases hs
      | some t =>
        have := decidableUnnested rest t
        decidable_of_iff (Unnested rest t)
          ⟨fun hu _ hs => by cases hs; exact hu, fun hu => hu t rfl⟩
    inferInstanceAs (Decidable ((e = .call → s.stack = []) ∧ _))

/-- Every completed element was handed over once and put back once, and `last_used` was advanced
once for each. -/
structure ExactlyOnce (h : History) : Prop where
  delivered : h.delivered.Perm ((List.range h.completed).map some)
  recycled : h.recycled.Perm ((List.range h.completed).map some)
  advances : h.advances = h.completed

end NasuaOS.Virtio
