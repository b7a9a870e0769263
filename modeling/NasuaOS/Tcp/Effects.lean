import NasuaOS.Tcp.System
import NasuaOS.Base.Ring

/-!
# What a turn does to the receiving side

The receiving side of the client is a part of its fields. A segment opens the connection, has its
payload stored, closes the stream, or leaves that part alone; the main program only ever takes bytes
out of the receive queue. Everything that is said about received data is derived from this.
-/

namespace NasuaOS.Tcp

open Base

/-- The receiving side of the client. -/
structure Receiving where
  synAcknowledged : Bool
  peerClosed : Bool
  overflow : Bool
  streamMode : Bool
  nextRemoteSequence : UInt32
  response : Nat → UInt8
  responseCapacity : Nat
  responseLength : Nat
  receiveHead : Nat
  receiveLength : Nat
  receiveQueue : Nat → UInt8

/-- The receiving side of a client. -/
def Client.receiving (c : Client) : Receiving where
  synAcknowledged := c.synAcknowledged
  peerClosed := c.peerClosed
  overflow := c.overflow
  streamMode := c.streamMode
  nextRemoteSequence := c.nextRemoteSequence
  response := c.response
  responseCapacity := c.responseCapacity
  responseLength := c.responseLength
  receiveHead := c.receiveHead
  receiveLength := c.receiveLength
  receiveQueue := c.receiveQueue

variable {c c' : Client} {s s' : System} {seg : Segment} {pending : Option Pending}

/-- The number of bytes of a segment that are accepted, when its payload is looked at. -/
def accepts (c : Client) (seg : Segment) : Nat :=
  if seg.payloadSequence = c.nextRemoteSequence then seg.payload.length else 0

/-- What a segment does to the receiving side, and how many bytes of it are accepted. -/
inductive Effect (c : Client) (seg : Segment) (c' : Client) : Nat → Prop
  | quiet (h : c'.receiving = c.receiving) : Effect c seg c' 0
  | opened (hsyn : seg.syn = true) (hnew : c.synAcknowledged = false)
    (h : c'.receiving = { c.receiving with
      synAcknowledged := true, nextRemoteSequence := seg.sequence + 1 }) : Effect c seg c' 0
  | stored (c₁ : Client) (hopen : c.synAcknowledged = true) (hne : seg.payload ≠ [])
    (hnext : seg.payloadSequence = c.nextRemoteSequence) (hsame : c₁.receiving = c.receiving)
    (hstore : storePayload c₁ seg.payload = .ok c') : Effect c seg c' seg.payload.length
  | closed (hopen : c.synAcknowledged = true) (hfin : seg.fin = true)
    (hnext : seg.payloadEnd = c.nextRemoteSequence)
    (h : c'.receiving = { c.receiving with
      peerClosed := true, nextRemoteSequence := c.nextRemoteSequence + 1 }) : Effect c seg c' 0

/-- The segment that a handler goes on with. -/
def Point.segment : Point → Option Segment
  | .synAcknowledged s => some s
  | .payloadAcknowledged s => some s
  | _ => none

/-- A pending send goes on with the segment it was made for, if with any. -/
def Follows (seg : Segment) (pending : Option Pending) : Prop :=
  ∀ p ∈ pending, ∀ seg', p.next.segment = some seg' → seg' = seg

/-- Acknowledgement numbers are not about receiving. -/
theorem receiveAcknowledgement_receiving (c : Client) (seg : Segment) :
    (receiveAcknowledgement c seg).receiving = c.receiving := by
  rw [receiveAcknowledgement]
  split <;> rfl

/-- The fields of equal receiving sides. -/
theorem receiving_fields (h : c'.receiving = c.receiving) :
    c'.synAcknowledged = c.synAcknowledged ∧ c'.peerClosed = c.peerClosed ∧
      c'.nextRemoteSequence = c.nextRemoteSequence :=
  ⟨congrArg Receiving.synAcknowledged h, congrArg Receiving.peerClosed h,
    congrArg Receiving.nextRemoteSequence h⟩

private theorem receiveFin_effect (hopen : c.synAcknowledged = true) (c₀ : Client)
    (hsame : c.receiving = c₀.receiving) (seg : Segment) :
    Effect c₀ seg (receiveFin c seg).1 0 ∧ Follows seg (receiveFin c seg).2 ∧
      (receiveFin c seg).1.synAcknowledged = true := by
  obtain ⟨hs, -, hn⟩ := receiving_fields hsame
  rw [receiveFin]
  split
  · next hfin =>
    split
    · next hend =>
      refine ⟨.closed (hs ▸ hopen) hfin (hend.trans hn) ?_, ?_, hopen⟩
      · rw [← hsame, ← hn]
        rfl
      · rintro p ⟨⟩ seg' ⟨⟩
    · refine ⟨.quiet hsame, ?_, hopen⟩
      rintro p ⟨⟩ seg' ⟨⟩
  · refine ⟨.quiet hsame, ?_, hopen⟩
    rintro p ⟨⟩

/-- Storing a payload fills the buffers and moves the next number. -/
theorem storePayload_ok {payload : Bytes} (h : storePayload c payload = .ok c') :
    ∃ queue length response stored overflow, c' = { c with
      receiveQueue := queue, receiveLength := length, response := response
      responseLength := stored, overflow := overflow
      nextRemoteSequence := c.nextRemoteSequence + UInt32.ofNat payload.length } := by
  rw [storePayload] at h
  split at h
  · obtain ⟨queue, -, h⟩ := bind_eq_ok.mp h
    cases h
    exact ⟨_, _, _, _, _, rfl⟩
  · obtain ⟨response, -, h⟩ := bind_eq_ok.mp h
    obtain ⟨response', -, h⟩ := bind_eq_ok.mp h
    cases h
    exact ⟨_, _, _, _, _, rfl⟩

private theorem storePayload_synAcknowledged {payload : Bytes}
    (h : storePayload c payload = .ok c') : c'.synAcknowledged = c.synAcknowledged := by
  obtain ⟨_, _, _, _, _, rfl⟩ := storePayload_ok h
  rfl

private theorem receivePayload_effect (hopen : c.synAcknowledged = true) (c₀ : Client)
    (hsame : c.receiving = c₀.receiving) (h : receivePayload c seg = .ok (c', pending)) :
    Effect c₀ seg c' (accepts c₀ seg) ∧ Follows seg pending ∧ c'.synAcknowledged = true := by
  obtain ⟨hs, -, hn⟩ := receiving_fields hsame
  rw [receivePayload] at h
  split at h
  · next hempty =>
    rw [Except.ok.injEq] at h
    have hfin := receiveFin_effect hopen c₀ hsame seg
    have hzero : accepts c₀ seg = 0 := by
      rw [accepts, hempty]
      exact ite_self 0
    rwa [h, ← hzero] at hfin
  · next hne =>
    obtain ⟨c₁, hc₁, h⟩ := bind_eq_ok.mp h
    cases h
    have hfollows : Follows seg (some ⟨acknowledge c', .payloadAcknowledged seg⟩) := by
      rintro p ⟨⟩ seg' ⟨⟩
      rfl
    rw [acceptPayload] at hc₁
    split at hc₁
    · next hnext =>
      rw [accepts, if_pos (hnext.trans hn)]
      refine ⟨.stored c (hs ▸ hopen) hne (hnext.trans hn) hsame hc₁, hfollows, ?_⟩
      rw [storePayload_synAcknowledged hc₁]
      exact hopen
    · next hnext =>
      cases hc₁
      rw [accepts, if_neg (hn ▸ hnext)]
      exact ⟨.quiet hsame, hfollows, hopen⟩

/-- The segments whose payload is looked at when they arrive. -/
def looksAt (c : Client) (seg : Segment) : Bool :=
  !seg.rst && !((seg.syn && seg.ack) && seg.acknowledgement == c.initialSequence + 1) &&
    c.synAcknowledged

/-- A segment that arrives. -/
theorem handleSegment_effect (h : handleSegment c seg = .ok (c', pending)) :
    Effect c seg c' (if looksAt c seg then accepts c seg else 0) ∧ Follows seg pending ∧
      (pending ≠ none → c'.synAcknowledged = true) := by
  have hnone : ∀ seg : Segment, Follows seg none := by
    rintro seg p ⟨⟩
  rw [handleSegment] at h
  split at h
  · next hrst =>
    cases h
    simp only [looksAt, hrst, Bool.not_true, Bool.false_and, Bool.false_eq_true, if_false]
    exact ⟨.quiet rfl, hnone seg, fun hne => absurd rfl hne⟩
  split at h
  · next hopen =>
    cases h
    simp only [Bool.and_eq_true, Bool.not_eq_true'] at hopen
    simp only [looksAt, hopen.1.2, Bool.and_false, Bool.false_eq_true, if_false]
    refine ⟨.opened hopen.1.1.1 hopen.1.2 rfl, ?_, fun _ => trivial⟩
    rintro p ⟨⟩ seg' ⟨⟩
    rfl
  split at h
  · next hopen =>
    cases h
    simp only [Bool.and_eq_true] at hopen
    simp only [looksAt, hopen.1.1.1, hopen.1.1.2, hopen.2, Bool.and_self, Bool.not_true,
      Bool.and_false, Bool.false_and, Bool.false_eq_true, if_false]
    refine ⟨.quiet rfl, ?_, fun _ => hopen.1.2⟩
    rintro p ⟨⟩ seg' ⟨⟩
  split at h
  · next hclosed =>
    cases h
    simp only [Bool.not_eq_true'] at hclosed
    simp only [looksAt, hclosed, Bool.and_false, Bool.false_eq_true, if_false]
    exact ⟨.quiet rfl, hnone seg, fun hne => absurd rfl hne⟩
  · next hrst _ hagain hopen =>
    have hsyn : c.synAcknowledged = true := by simpa using hopen
    have hlooks : looksAt c seg = true := by
      simp only [hsyn, Bool.and_true] at hagain
      simp only [looksAt, hrst, hagain, hsyn, Bool.not_false, Bool.and_self]
    have hsame := receiveAcknowledgement_receiving c seg
    obtain ⟨heffect, hfollows, hafter⟩ :=
      receivePayload_effect ((receiving_fields hsame).1.trans hsyn) c hsame h
    rw [if_pos hlooks]
    exact ⟨heffect, hfollows, fun _ => hafter⟩

/-- The number of bytes that are accepted when a handler goes on. -/
def Point.accepts (c : Client) : Point → Nat
  | .synAcknowledged seg => Tcp.accepts c seg
  | _ => 0

private theorem resume_effect (hopen : c.synAcknowledged = true) {point : Point} {sent : Bool}
    (h : resume point sent c = .ok (c', pending)) : c'.synAcknowledged = true ∧
      ((∃ seg, point.segment = some seg ∧ Effect c seg c' (point.accepts c) ∧ Follows seg pending) ∨
        (c'.receiving = c.receiving ∧ point.accepts c = 0 ∧
          ∀ p ∈ pending, p.next.segment = none)) := by
  cases point with
  | synAcknowledged seg =>
    have hsame := receiveAcknowledgement_receiving c seg
    have hsyn : (receiveAcknowledgement c seg).synAcknowledged = true :=
      (receiving_fields hsame).1.trans hopen
    obtain ⟨heffect, hfollows, hafter⟩ := receivePayload_effect hsyn c hsame h
    exact ⟨hafter, .inl ⟨seg, rfl, heffect, hfollows⟩⟩
  | payloadAcknowledged seg =>
    rw [resume, Except.ok.injEq] at h
    have hfin := receiveFin_effect hopen c rfl seg
    rw [h] at hfin
    exact ⟨hfin.2.2, .inl ⟨seg, rfl, hfin.1, hfin.2.1⟩⟩
  | finAcknowledged =>
    rw [resume] at h
    split at h
    · cases h
      refine ⟨hopen, .inr ⟨rfl, rfl, ?_⟩⟩
      rintro p ⟨⟩
    · cases h
      refine ⟨hopen, .inr ⟨rfl, rfl, ?_⟩⟩
      rintro p ⟨⟩
      rfl
  | finSent =>
    rw [resume] at h
    split at h
    · cases h
      refine ⟨hopen, .inr ⟨rfl, rfl, ?_⟩⟩
      rintro p ⟨⟩
    · cases h
      refine ⟨hopen, .inr ⟨rfl, rfl, ?_⟩⟩
      rintro p ⟨⟩
  | done =>
    cases h
    refine ⟨hopen, .inr ⟨rfl, rfl, ?_⟩⟩
    rintro p ⟨⟩

private theorem runSent_receiving (c : Client) (sent : Bool) (p : Sending) :
    (runSent c sent p).1.receiving = c.receiving := by
  cases p <;> simp only [runSent, httpNext, httpFail, httpReturn] <;>
    repeat (first | rfl | split)

private theorem runPolled_receiving (c : Client) (now : Nat) (p : Polling) :
    (runPolled c now p).1.receiving = c.receiving := by
  cases p <;> simp only [runPolled, httpBody, httpNext, httpFail, connectBody, waitBody] <;>
    repeat (first | rfl | split)

private theorem runEngine_receiving (c : Client) (deadline : Nat) (call : EngineCall) :
    (runEngine c deadline call).1.receiving = c.receiving := by
  cases call <;> simp only [runEngine, tlsClose] <;> repeat (first | rfl | split)

private theorem runReady_receiving (c : Client) (now : Nat) (p : Ready) :
    ((runReady c now p).1.1.receiving = c.receiving ∧ (runReady c now p).2 = []) ∨
      ∃ length, c.receiveLength ≠ 0 ∧
        (runReady c now p).1.1.receiving = (readQueue c length).2.receiving ∧
        (runReady c now p).2 = (readQueue c length).1 := by
  cases p with
  | readTest deadline length =>
    simp only [runReady]
    split
    · split
      · exact .inl ⟨rfl, rfl⟩
      · exact .inl ⟨rfl, rfl⟩
    · next hne => exact .inr ⟨length, hne, rfl, rfl⟩
  | connectEnd l =>
    simp only [runReady]
    split
    · exact .inl ⟨rfl, rfl⟩
    · exact .inl ⟨rfl, rfl⟩
  | httpEnd l =>
    refine .inl ⟨?_, rfl⟩
    simp only [runReady, httpClose, httpReturn]
    split <;> rfl
  | writeTest deadline buffer written =>
    refine .inl ⟨?_, rfl⟩
    simp only [runReady, writeNext]
    repeat (first | rfl | split)
  | waitTest w =>
    refine .inl ⟨?_, rfl⟩
    simp only [runReady, waitNext]
    repeat (first | rfl | split)
  | _ => exact .inl ⟨rfl, rfl⟩

/-- What one turn does, with what it needs. -/
inductive Turn (s : System) : Event → System → Prop
  | arrived {seg : Segment} {r : Client × Option Pending} (hlisten : s.listening = true)
    (h : handleSegment s.client seg = .ok r) : Turn s (.arrive seg) (s.handled r)
  | resumed {p : Pending} {rest : List Pending} {ok : Bool} {r : Client × Option Pending}
    (hstack : s.stack = p :: rest) (h : resume p.next ok s.client = .ok r) :
    Turn s (.sent ok) (({ s with stack := rest }.emit ok p.outgoing).handled r)
  | sent {o : Outgoing} {p : Sending} {ok : Bool} (hstack : s.stack = [])
    (hmain : s.main = .sending o p) :
    Turn s (.sent ok) ((s.emit ok o).goOn (runSent s.client ok p))
  | ready {p : Ready} {now : Nat} (hclock : s.clock ≤ now) (hstack : s.stack = [])
    (hmain : s.main = .ready p) :
    Turn s (.run now)
      { s.goOn (runReady s.client now p).1 with
        clock := now, received := s.received ++ (runReady s.client now p).2 }
  | polled {p : Polling} {now : Nat} (hclock : s.clock ≤ now) (hstack : s.stack = [])
    (hmain : s.main = .polling p) :
    Turn s (.run now) { s.goOn (runPolled s.client now p) with clock := now }
  | engine {call : EngineCall} {deadline : Nat} (hstack : s.stack = [])
    (hmain : s.main = .engine deadline) :
    Turn s (.engine call) (s.goOn (runEngine s.client deadline call))

/-- A turn that is possible is one of these. -/
theorem step_turn {e : Event} (hs : step s e = some s') : Turn s e s' := by
  cases e with
  | arrive seg =>
    simp only [step] at hs
    split at hs
    · next hlisten =>
      split at hs
      · next r hr =>
        cases hs
        exact .arrived hlisten hr
      · cases hs
    · cases hs
  | sent ok =>
    simp only [step] at hs
    split at hs
    · next p rest _ hstack =>
      split at hs
      · next r hr =>
        cases hs
        exact .resumed hstack hr
      · cases hs
    · next o p hstack hmain =>
      cases hs
      exact .sent hstack hmain
    · cases hs
  | run now =>
    simp only [step] at hs
    split at hs
    · next hclock =>
      split at hs
      · next p hstack hmain =>
        cases hs
        exact .ready hclock hstack hmain
      · next p hstack hmain =>
        cases hs
        exact .polled hclock hstack hmain
      · cases hs
    · cases hs
  | engine call =>
    simp only [step] at hs
    split at hs
    · next deadline hstack hmain =>
      cases hs
      exact .engine hstack hmain
    · cases hs

/-- The segment that a turn works on. -/
def turnSegment (s : System) : Event → Option Segment
  | .arrive seg => some seg
  | .sent _ => s.stack.head?.bind fun p => p.next.segment
  | _ => none

/-- The number of in-order bytes that a turn accepts. -/
def acceptedIn (s : System) : Event → Nat
  | .arrive seg => if looksAt s.client seg then accepts s.client seg else 0
  | .sent _ => (s.stack.head?.map fun p => p.next.accepts s.client).getD 0
  | _ => 0

/-- Count the in-order bytes that are accepted. -/
def countAccepted (s : System) (e : Event) (k : Nat) : Nat := k + acceptedIn s e

/-- The number of in-order bytes that turns in a row accept. -/
def accepted (events : List Event) (s : System) : Nat := recorded step countAccepted events s 0

/-- What a turn does to the receiving side and to what the engine was given. -/
inductive Progress (s : System) (e : Event) (s' : System) : Prop
  | segment (seg : Segment) (hseg : turnSegment s e = some seg)
    (h : Effect s.client seg s'.client (acceptedIn s e)) (hreceived : s'.received = s.received)
  | quiet (h : s'.client.receiving = s.client.receiving) (hzero : acceptedIn s e = 0)
    (hreceived : s'.received = s.received)
  | read (length : Nat) (hne : s.client.receiveLength ≠ 0)
    (h : s'.client.receiving = (readQueue s.client length).2.receiving)
    (hzero : acceptedIn s e = 0)
    (hreceived : s'.received = s.received ++ (readQueue s.client length).1)

/-- Handlers in progress work on segments of which `P` holds, and the connection is open. -/
structure Good (P : Segment → Prop) (s : System) : Prop where
  segments : ∀ p ∈ s.stack, ∀ seg, p.next.segment = some seg → P seg
  opened : s.stack ≠ [] → s.client.synAcknowledged = true

variable {P : Segment → Prop} {e : Event}

/-- The segment of a turn is one that arrived. -/
theorem Good.turnSegment (hgood : Good P s) (harrive : ∀ seg, e = .arrive seg → P seg)
    (hseg : turnSegment s e = some seg) : P seg := by
  cases e with
  | arrive seg' =>
    cases hseg
    exact harrive seg rfl
  | sent ok =>
    obtain ⟨p, hp, hpoint⟩ := Option.bind_eq_some_iff.mp hseg
    exact hgood.segments p (List.mem_of_head? hp) seg hpoint
  | run now | engine call => cases hseg

private theorem Good.handled {r : Client × Option Pending} {stack : List Pending} {wire : List Outgoing}
    (hstack : ∀ p ∈ stack, ∀ seg, p.next.segment = some seg → P seg)
    (hpending : ∀ p ∈ r.2, ∀ seg, p.next.segment = some seg → P seg)
    (hopened : r.2.toList ++ stack ≠ [] → r.1.synAcknowledged = true) :
    Good P (({ s with stack := stack, wire := wire } : System).handled r) := by
  refine ⟨?_, hopened⟩
  intro p hp
  simp only [System.handled, List.mem_append, Option.mem_toList] at hp
  rcases hp with hp | hp
  · exact hpending p hp
  · exact hstack p hp

private theorem Effect.opened_of {n : Nat} (h : Effect c seg c' n)
    (hopen : c.synAcknowledged = true) : c'.synAcknowledged = true := by
  cases h with
  | quiet h => exact (receiving_fields h).1.trans hopen
  | opened _ _ h => exact congrArg Receiving.synAcknowledged h
  | stored c₁ _ _ _ hsame hstore =>
    rw [storePayload_synAcknowledged hstore, (receiving_fields hsame).1]
    exact hopen
  | closed _ _ _ h => exact (congrArg Receiving.synAcknowledged h).trans hopen

/-- Every turn makes progress of one of the three kinds, and keeps handlers good. -/
theorem Turn.progress (hgood : Good P s) (hturn : Turn s e s')
    (harrive : ∀ seg, e = .arrive seg → P seg) : Good P s' ∧ Progress s e s' := by
  cases hturn with
  | @arrived seg r hlisten h =>
    obtain ⟨c', pending⟩ := r
    obtain ⟨heffect, hfollows, hopen⟩ := handleSegment_effect h
    refine ⟨Good.handled hgood.segments ?_ ?_, .segment seg rfl heffect rfl⟩
    · intro p hp seg' hseg'
      rw [hfollows p hp seg' hseg']
      exact harrive seg rfl
    · intro hne
      cases hpending : pending with
      | some p => exact hopen (by rw [hpending]; exact Option.some_ne_none p)
      | none =>
        rw [hpending] at hne
        exact heffect.opened_of (hgood.opened hne)
  | @resumed p rest ok r hstack h =>
    obtain ⟨c', pending⟩ := r
    have hopen : s.client.synAcknowledged = true :=
      hgood.opened (by rw [hstack]; exact List.cons_ne_nil _ _)
    have hrest : ∀ q ∈ rest, ∀ seg, q.next.segment = some seg → P seg := by
      intro q hq
      exact hgood.segments q (by rw [hstack]; exact List.mem_cons_of_mem _ hq)
    have hcount : acceptedIn s (.sent ok) = p.next.accepts s.client := by
      rw [acceptedIn, hstack]
      rfl
    have hturn : turnSegment s (.sent ok) = p.next.segment := by
      rw [turnSegment, hstack]
      rfl
    obtain ⟨hafter, ⟨seg, hseg, heffect, hfollows⟩ | ⟨hquiet, hzero, hnone⟩⟩ :=
      resume_effect hopen h
    · refine ⟨Good.handled hrest ?_ (fun _ => hafter),
        .segment seg (hturn.trans hseg) (hcount ▸ heffect) rfl⟩
      intro q hq seg' hseg'
      rw [hfollows q hq seg' hseg']
      exact hgood.turnSegment harrive (hturn.trans hseg)
    · refine ⟨Good.handled hrest ?_ (fun _ => hafter), .quiet hquiet (hcount.trans hzero) rfl⟩
      intro q hq seg' hseg'
      rw [hnone q hq] at hseg'
      cases hseg'
  | sent hstack hmain =>
    refine ⟨⟨hgood.segments, fun hne => absurd hstack hne⟩, .quiet (runSent_receiving ..) ?_ rfl⟩
    rw [acceptedIn, hstack]
    rfl
  | @ready p now hclock hstack hmain =>
    refine ⟨⟨hgood.segments, fun hne => absurd hstack hne⟩, ?_⟩
    rcases runReady_receiving s.client now p with ⟨h, hnil⟩ | ⟨length, hne, h, hread⟩
    · refine .quiet h rfl ?_
      rw [hnil, List.append_nil]
    · refine .read length hne h rfl ?_
      rw [hread]
  | polled hclock hstack hmain =>
    exact ⟨⟨hgood.segments, fun hne => absurd hstack hne⟩, .quiet (runPolled_receiving ..) rfl rfl⟩
  | engine hstack hmain =>
    exact ⟨⟨hgood.segments, fun hne => absurd hstack hne⟩, .quiet (runEngine_receiving ..) rfl rfl⟩

end NasuaOS.Tcp
