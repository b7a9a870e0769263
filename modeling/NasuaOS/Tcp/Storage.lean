import NasuaOS.Tcp.Effects

/-!
# Storing payloads

`tcp.cpp:460–495`. Both buffers are windows of their arrays. Storing a payload appends to the window
what there is room for; in every state that a client gets into, whatever arrives, there is room for
what is stored and for the NUL behind a response.
-/

namespace NasuaOS.Tcp

open Base List

variable {c c' : Client} {s s' : System} {seg : Segment} {items payload : Bytes}

private theorem sub32_eq {a b : Nat} (hba : b ≤ a) (ha : a < 2 ^ 32) : sub32 a b = a - b := by
  rw [sub32]
  omega

private theorem copyBytes_window {memory : Nat → UInt8} {size start : Nat} (slot : Nat → Nat)
    (i : Nat) (bytes : Bytes) (h : Window memory size start items)
    (hroom : items.length + bytes.length ≤ size)
    (hslot : ∀ j, j < bytes.length → slot (i + j) = (start + (items.length + j)) % size) :
    ∃ memory', copyBytes size slot i bytes memory = .ok memory' ∧
      Window memory' size start (items ++ bytes) := by
  induction bytes generalizing memory i items with
  | nil => exact ⟨memory, rfl, by rwa [append_nil]⟩
  | cons b bytes ih =>
    rw [length_cons] at hroom
    have hhere : slot i = (start + items.length) % size := hslot 0 (Nat.zero_lt_succ _)
    have hpush := h.push (by omega) b
    have hlen : (items ++ [b]).length = items.length + 1 := length_append
    obtain ⟨memory', hcopy, hwindow⟩ := ih (i + 1) hpush (by omega) (by
      intro j hj
      rw [hlen, Nat.add_assoc, Nat.add_assoc, Nat.add_comm 1 j]
      exact hslot (j + 1) (Nat.succ_lt_succ hj))
    refine ⟨memory', ?_, ?_⟩
    · rw [copyBytes, putAt, hhere, if_pos (Nat.mod_lt _ (by omega))]
      exact hcopy
    · rwa [append_assoc, singleton_append] at hwindow

/-- A payload in stream mode. -/
theorem storePayload_stream (hmode : c.streamMode = true)
    (hwindow : Window c.receiveQueue tcpReceiveQueueSize c.receiveHead items)
    (hlen : items.length = c.receiveLength) (hroom : c.receiveLength ≤ tcpReceiveQueueSize)
    (payload : Bytes) :
    ∃ queue, storePayload c payload = .ok { c with
        receiveQueue := queue
        receiveLength :=
          c.receiveLength + (payload.take (tcpReceiveQueueSize - c.receiveLength)).length
        overflow := c.overflow || decide
          ((payload.take (tcpReceiveQueueSize - c.receiveLength)).length < payload.length)
        nextRemoteSequence := c.nextRemoteSequence + UInt32.ofNat payload.length } ∧
      Window queue tcpReceiveQueueSize c.receiveHead
        (items ++ payload.take (tcpReceiveQueueSize - c.receiveLength)) := by
  have hcopied := length_take_le (tcpReceiveQueueSize - c.receiveLength) payload
  obtain ⟨queue, hcopy, hafter⟩ := copyBytes_window
    (fun i => (c.receiveHead + c.receiveLength + i) % tcpReceiveQueueSize) 0
    (payload.take (tcpReceiveQueueSize - c.receiveLength)) hwindow (by omega) (by
      intro j _
      rw [hlen, Nat.zero_add, Nat.add_assoc])
  refine ⟨queue, ?_, hafter⟩
  rw [storePayload, if_pos hmode, sub32_eq hroom (by decide)]
  simp only [hcopy]
  rfl

/-- A payload of a response. -/
theorem storePayload_response (hmode : c.streamMode = false)
    (hwindow : Window c.response c.responseCapacity 0 items)
    (hlen : items.length = c.responseLength) (hlow : 2 ≤ c.responseCapacity)
    (hhigh : c.responseCapacity ≤ 0x7FFFFFFF) (hroom : c.responseLength ≤ c.responseCapacity - 1)
    (payload : Bytes) :
    ∃ response, storePayload c payload = .ok { c with
        response := response
        responseLength :=
          c.responseLength + (payload.take (c.responseCapacity - 1 - c.responseLength)).length
        overflow := c.overflow || decide
          ((payload.take (c.responseCapacity - 1 - c.responseLength)).length < payload.length)
        nextRemoteSequence := c.nextRemoteSequence + UInt32.ofNat payload.length } ∧
      Window response c.responseCapacity 0
        (items ++ payload.take (c.responseCapacity - 1 - c.responseLength)) := by
  have hcopied := length_take_le (c.responseCapacity - 1 - c.responseLength) payload
  generalize hpart : payload.take (c.responseCapacity - 1 - c.responseLength) = part at hcopied ⊢
  obtain ⟨response, hcopy, hafter⟩ := copyBytes_window (fun i => c.responseLength + i) 0 part
    hwindow (by omega) (by
      intro j hj
      rw [hlen, Nat.zero_add, Nat.zero_add, Nat.mod_eq_of_lt (by omega)])
  have hend : c.responseLength + part.length < c.responseCapacity := by omega
  refine ⟨Function.update response (c.responseLength + part.length) 0, ?_, ?_⟩
  · rw [storePayload, if_neg (by rw [hmode]; exact Bool.false_ne_true),
      sub32_eq (by omega : 1 ≤ c.responseCapacity) (by omega), sub32_eq hroom (by omega)]
    simp only [hpart, hcopy]
    change (putAt _ _ _ _ >>= _) = _
    rw [putAt, if_pos hend]
    rfl
  · have hfree := hafter.update_free (k := c.responseLength + part.length)
      (by rw [length_append, hlen]) hend 0
    rwa [Nat.zero_add, Nat.mod_eq_of_lt hend] at hfree

/-- The lengths of the buffers are those of a client that started with an admissible capacity. -/
structure Room (c : Client) : Prop where
  queue : c.receiveLength ≤ tcpReceiveQueueSize
  response : c.streamMode = false → 2 ≤ c.responseCapacity ∧ c.responseCapacity ≤ 0x7FFFFFFF ∧
    c.responseLength ≤ c.responseCapacity - 1

section

variable (h : Room c)

include h

private theorem Room.congr (hsame : c'.receiving = c.receiving) : Room c' := by
  have hq : c'.receiveLength = c.receiveLength := congrArg Receiving.receiveLength hsame
  have hm : c'.streamMode = c.streamMode := congrArg Receiving.streamMode hsame
  have hc : c'.responseCapacity = c.responseCapacity := congrArg Receiving.responseCapacity hsame
  have hl : c'.responseLength = c.responseLength := congrArg Receiving.responseLength hsame
  exact ⟨hq ▸ h.queue, by rw [hm, hc, hl]; exact h.response⟩

/-- There is room for what is stored of a payload. -/
theorem Room.store (payload : Bytes) : ∃ c', storePayload c payload = .ok c' ∧ Room c' := by
  cases hmode : c.streamMode with
  | true =>
    obtain ⟨queue, hstore, -⟩ := storePayload_stream hmode
      (Window.contents c.receiveQueue tcpReceiveQueueSize c.receiveHead c.receiveLength)
      (by simp) h.queue payload
    refine ⟨_, hstore, ?_, ?_⟩
    · have hcopied := length_take_le (tcpReceiveQueueSize - c.receiveLength) payload
      have hq := h.queue
      change c.receiveLength + _ ≤ _
      omega
    · intro hfalse
      rw [hmode] at hfalse
      cases hfalse
  | false =>
    obtain ⟨hlow, hhigh, hroom⟩ := h.response hmode
    obtain ⟨response, hstore, -⟩ := storePayload_response hmode
      (Window.contents c.response c.responseCapacity 0 c.responseLength) (by simp) hlow hhigh hroom
      payload
    refine ⟨_, hstore, h.queue, fun _ => ⟨hlow, hhigh, ?_⟩⟩
    have hcopied := length_take_le (c.responseCapacity - 1 - c.responseLength) payload
    change c.responseLength + _ ≤ c.responseCapacity - 1
    omega

private theorem Room.receivePayload (seg : Segment) : ∃ r, receivePayload c seg = .ok r := by
  rw [Tcp.receivePayload]
  split
  · exact ⟨_, rfl⟩
  · rw [acceptPayload]
    split
    · obtain ⟨c', hstore, -⟩ := h.store seg.payload
      rw [hstore]
      exact ⟨_, rfl⟩
    · exact ⟨_, rfl⟩

/-- So does the handler of a segment. -/
theorem Room.handleSegment (seg : Segment) : ∃ r, handleSegment c seg = .ok r := by
  rw [Tcp.handleSegment]
  split
  · exact ⟨_, rfl⟩
  split
  · exact ⟨_, rfl⟩
  split
  · exact ⟨_, rfl⟩
  split
  · exact ⟨_, rfl⟩
  · exact (h.congr (receiveAcknowledgement_receiving c seg)).receivePayload seg

/-- So does a handler that goes on behind a send. -/
theorem Room.resume (point : Point) (ok : Bool) : ∃ r, resume point ok c = .ok r := by
  cases point with
  | synAcknowledged seg =>
    exact (h.congr (receiveAcknowledgement_receiving c seg)).receivePayload seg
  | finAcknowledged | finSent =>
    rw [Tcp.resume]
    split <;> exact ⟨_, rfl⟩
  | _ => exact ⟨_, rfl⟩

/-- A segment leaves room. -/
theorem Room.effect {n : Nat} (heffect : Effect c seg c' n) : Room c' := by
  cases heffect with
  | quiet hsame => exact h.congr hsame
  | opened _ _ hafter =>
    exact Room.congr (c := { c with synAcknowledged := true, nextRemoteSequence := seg.sequence + 1 })
      ⟨h.queue, h.response⟩ hafter
  | stored c₁ _ _ _ hsame hstore =>
    obtain ⟨c₂, hstore', hroom⟩ := (h.congr hsame).store seg.payload
    rw [hstore, Except.ok.injEq] at hstore'
    exact hstore' ▸ hroom
  | closed _ _ _ hafter =>
    exact Room.congr
      (c := { c with peerClosed := true, nextRemoteSequence := c.nextRemoteSequence + 1 })
      ⟨h.queue, h.response⟩ hafter

private theorem Room.receiveFin (seg : Segment) : Room (receiveFin c seg).1 := by
  rw [Tcp.receiveFin]
  split
  · split
    · exact ⟨h.queue, h.response⟩
    · exact h
  · exact h

variable {r : Client × Option Pending}

private theorem Room.of_receivePayload (hr : Tcp.receivePayload c seg = .ok r) : Room r.1 := by
  rw [Tcp.receivePayload] at hr
  split at hr
  · cases hr
    exact h.receiveFin seg
  · obtain ⟨c₁, hc₁, hr⟩ := bind_eq_ok.mp hr
    cases hr
    rw [acceptPayload] at hc₁
    split at hc₁
    · obtain ⟨c₂, hstore, hroom⟩ := h.store seg.payload
      rw [hc₁, Except.ok.injEq] at hstore
      exact hstore ▸ hroom
    · cases hc₁
      exact h

/-- So does a handler that goes on. -/
theorem Room.of_resume {point : Point} {ok : Bool} (hr : Tcp.resume point ok c = .ok r) :
    Room r.1 := by
  cases point with
  | synAcknowledged seg =>
    exact (h.congr (receiveAcknowledgement_receiving c seg)).of_receivePayload hr
  | payloadAcknowledged seg =>
    cases hr
    exact h.receiveFin seg
  | finAcknowledged =>
    rw [Tcp.resume] at hr
    split at hr
    · cases hr
      exact h
    · cases hr
      exact h
  | finSent =>
    rw [Tcp.resume] at hr
    split at hr
    · cases hr
      exact ⟨h.queue, h.response⟩
    · cases hr
      exact h
  | done =>
    cases hr
    exact h

end

/-- So does every turn. -/
theorem Room.progress {e : Event} (h : Room s.client) (hprogress : Progress s e s') :
    Room s'.client := by
  cases hprogress with
  | segment seg _ heffect _ => exact h.effect heffect
  | quiet hsame _ _ => exact h.congr hsame
  | read length _ hafter _ _ =>
    refine Room.congr (c := (readQueue s.client length).2) ⟨?_, h.response⟩ hafter
    exact Nat.le_trans (Nat.sub_le _ _) h.queue

/-- A connection starts with room. -/
theorem Start.room (h : Start s) : Room s.client := by
  cases h with
  | http _ _ _ _ _ _ hlow hhigh =>
    exact ⟨Nat.zero_le _, fun _ => ⟨hlow, hhigh, Nat.zero_le _⟩⟩
  | https => exact ⟨Nat.zero_le _, nofun⟩

end NasuaOS.Tcp
