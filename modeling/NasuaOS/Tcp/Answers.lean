import NasuaOS.Tcp.Octets

/-!
# How handlers answer

`next_sequence` is moved by the main program, for the SYN, the data and its FIN, and by `handle_tcp`,
for the FIN that answers the peer's. Every other send of a handler is an acknowledgement. The turns
that keep the two in order are those in which the peer's SYN-ACK comes behind the SYN, and its FIN is
not taken before the request of `http_get` is out or while `tls_tcp_write` sends new data.
-/

namespace NasuaOS.Tcp

open Base

variable {c c' : Client} {s : System} {seg : Segment} {pending : Option Pending} {log : SendLog}

/-- The FIN of a segment is the next thing in the peer's stream. -/
def finInOrder (c : Client) (seg : Segment) : Bool :=
  seg.fin && seg.payloadEnd == c.nextRemoteSequence

/-- The turn opens the connection. -/
def opensIn (s : System) : Event → Bool
  | .arrive seg => !seg.rst && (seg.syn && seg.ack) && !s.client.synAcknowledged &&
      seg.acknowledgement == s.client.initialSequence + 1
  | _ => false

/-- The handler that goes on takes the FIN of its segment. -/
def Point.closes (c : Client) : Point → Bool
  | .synAcknowledged seg => decide (seg.payload = []) && finInOrder c seg
  | .payloadAcknowledged seg => finInOrder c seg
  | _ => false

/-- The turn takes the FIN of the peer. -/
def closesIn (s : System) : Event → Bool
  | .arrive seg => looksAt s.client seg && (decide (seg.payload = []) && finInOrder s.client seg)
  | .sent _ => (s.stack.head?.map fun p => p.next.closes s.client).getD false
  | _ => false

/-- A SYN went out. -/
def synSent (s : System) : Bool := s.wire.any fun o => o.flags == 0x02

/-- The FIN of the peer may be answered: no data is left that was to be sent before. -/
def mayClose (s : System) : Bool :=
  match s.main with
  | .sending _ (.chunk _) => false
  | .sending _ (.httpFin _) => true
  | _ => s.client.streamMode || s.client.requestSent

/-- The turns that keep the order. -/
structure Orderly (s : System) (log : SendLog) (e : Event) : Prop where
  -- `peer_mss_from_options` gives no other size (`Network.readSegment_yields`).
  mss : ∀ seg, e = .arrive seg → seg.mss ≤ tcpMaxPayload
  opening : opensIn s e = true → synSent s = true
  closing : closesIn s e = true → mayClose s = true
  room : (recordSend s e log).streamed + (recordSend s e log).fins < 2 ^ 32

instance (s : System) (log : SendLog) (e : Event) : Decidable (Orderly s log e) :=
  have : Decidable (∀ seg, e = .arrive seg → seg.mss ≤ tcpMaxPayload) :=
    match e with
    | .arrive seg => decidable_of_iff (seg.mss ≤ tcpMaxPayload)
        ⟨fun h _ heq => Event.arrive.inj heq ▸ h, fun h => h seg rfl⟩
    | .sent _ => isTrue nofun
    | .run _ => isTrue nofun
    | .engine _ => isTrue nofun
  decidable_of_iff ((∀ seg, e = .arrive seg → seg.mss ≤ tcpMaxPayload) ∧
      (opensIn s e = true → synSent s = true) ∧ (closesIn s e = true → mayClose s = true) ∧
      (recordSend s e log).streamed + (recordSend s e log).fins < 2 ^ 32)
    ⟨fun h => ⟨h.1, h.2.1, h.2.2.1, h.2.2.2⟩, fun h => ⟨h.mss, h.opening, h.closing, h.room⟩⟩

/-- A send of a handler, other than of its FIN. -/
structure Answer (c : Client) (closes : Bool) (p : Pending) : Prop where
  acknowledges : p.outgoing = acknowledge c
  next : p.next ≠ .finSent
  closing : p.next = .finAcknowledged → closes = true

private theorem receiveFin_answer (c : Client) (seg : Segment) :
    ∀ p ∈ (receiveFin c seg).2, Answer (receiveFin c seg).1 (finInOrder c seg) p := by
  rw [receiveFin]
  split
  · next hfin =>
    split
    · next hend =>
      rintro p ⟨⟩
      refine ⟨rfl, by simp, fun _ => ?_⟩
      rw [finInOrder, hfin, hend, Bool.true_and]
      exact beq_self_eq_true _
    · rintro p ⟨⟩
      exact ⟨rfl, by simp, by simp⟩
  · rintro p ⟨⟩

private theorem receivePayload_answer (h : receivePayload c seg = .ok (c', pending)) :
    ∀ p ∈ pending, Answer c' (decide (seg.payload = []) && finInOrder c seg) p := by
  rw [receivePayload] at h
  split at h
  · next hempty =>
    rw [Except.ok.injEq] at h
    have hfin := receiveFin_answer c seg
    rw [h] at hfin
    rw [decide_eq_true hempty, Bool.true_and]
    exact hfin
  · obtain ⟨c₁, -, h⟩ := bind_eq_ok.mp h
    cases h
    rintro p ⟨⟩
    exact ⟨rfl, by simp, by simp⟩

private theorem finInOrder_receiveAcknowledgement (c : Client) (seg seg' : Segment) :
    finInOrder (receiveAcknowledgement c seg') seg = finInOrder c seg := by
  rw [finInOrder, finInOrder, (receiving_fields (receiveAcknowledgement_receiving c seg')).2.2]

/-- The answers to a segment that arrives. -/
theorem handleSegment_answer (h : handleSegment c seg = .ok (c', pending)) : ∀ p ∈ pending,
      Answer c' (looksAt c seg && (decide (seg.payload = []) && finInOrder c seg)) p := by
  rw [handleSegment] at h
  split at h
  · cases h
    rintro p ⟨⟩
  split at h
  · cases h
    rintro p ⟨⟩
    exact ⟨rfl, by simp, by simp⟩
  split at h
  · cases h
    rintro p ⟨⟩
    exact ⟨rfl, by simp, by simp⟩
  split at h
  · cases h
    rintro p ⟨⟩
  · next hrst _ hagain hopen =>
    have hsyn : c.synAcknowledged = true := by simpa using hopen
    have hlooks : looksAt c seg = true := by
      simp only [hsyn, Bool.and_true] at hagain
      simp only [looksAt, hrst, hagain, hsyn, Bool.not_false, Bool.and_self]
    have hanswer := receivePayload_answer h
    rw [finInOrder_receiveAcknowledgement] at hanswer
    rw [hlooks, Bool.true_and]
    exact hanswer

/-- The answers of a handler that goes on, or its FIN. -/
theorem resume_answer {point : Point} {sent : Bool} (h : resume point sent c = .ok (c', pending)) :
    ∀ p ∈ pending, Answer c' (point.closes c) p ∨
      (point = .finAcknowledged ∧ p = ⟨outgoing c 0x11 c.nextSequence [], .finSent⟩) := by
  cases point with
  | synAcknowledged seg =>
    intro p hp
    have hanswer := receivePayload_answer h p hp
    rw [finInOrder_receiveAcknowledgement] at hanswer
    exact .inl hanswer
  | payloadAcknowledged seg =>
    rw [resume, Except.ok.injEq] at h
    have hfin := receiveFin_answer c seg
    rw [h] at hfin
    exact fun p hp => .inl (hfin p hp)
  | finAcknowledged =>
    rw [resume] at h
    split at h
    · cases h
      rintro p ⟨⟩
    · cases h
      rintro p ⟨⟩
      exact .inr ⟨rfl, rfl⟩
  | finSent =>
    rw [resume] at h
    split at h
    · cases h
      rintro p ⟨⟩
    · cases h
      rintro p ⟨⟩
  | done =>
    cases h
    rintro p ⟨⟩

/-- A segment opens the connection only in a turn that opens it. -/
theorem handleSegment_opens (h : handleSegment c seg = .ok (c', pending))
    (hopen : c'.synAcknowledged = true) :
    c.synAcknowledged = true ∨ (!seg.rst && (seg.syn && seg.ack) && !c.synAcknowledged &&
      seg.acknowledgement == c.initialSequence + 1) = true := by
  rw [handleSegment] at h
  split at h
  · cases h
    exact .inl hopen
  split at h
  · next hrst hnew =>
    rw [Bool.not_eq_true] at hrst
    rw [hrst]
    exact .inr hnew
  split at h
  · cases h
    exact .inl hopen
  split at h
  · cases h
    exact .inl hopen
  · next hclosed => exact .inl (by simpa using hclosed)

end NasuaOS.Tcp
