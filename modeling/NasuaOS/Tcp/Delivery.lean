import NasuaOS.Tcp.Peer

/-!
# Delivering a payload

The two turns in which a segment with the next bytes arrives and is acknowledged, while the main
program polls the network.
-/

namespace NasuaOS.Tcp

open Base

variable {s : System} {c : Client} {payload : Bytes}

/-- The segment that carries the next bytes. -/
def nextSegment (c : Client) (acknowledgement : UInt32) (payload : Bytes) : Segment :=
  ⟨0x10, c.nextRemoteSequence, acknowledgement, tcpMaxPayload, payload⟩

private theorem nextSegment_flags (c : Client) (acknowledgement : UInt32) (payload : Bytes) :
    (nextSegment c acknowledgement payload).rst = false ∧
      (nextSegment c acknowledgement payload).syn = false ∧
      (nextSegment c acknowledgement payload).fin = false ∧
      (nextSegment c acknowledgement payload).ack = true := by
  simp only [Segment.rst, Segment.syn, Segment.fin, Segment.ack, nextSegment]
  decide

/-- It starts at the next byte. -/
theorem nextSegment_payloadSequence (c : Client) (acknowledgement : UInt32) (payload : Bytes) :
    (nextSegment c acknowledgement payload).payloadSequence = c.nextRemoteSequence := by
  simp only [Segment.payloadSequence, nextSegment_flags, Bool.false_eq_true, if_false,
    UInt32.add_zero]
  rfl

/-- It is a segment of a peer that has these bytes next in its stream. -/
theorem nextSegment_carries {isn acknowledgement : UInt32} {data : Bytes} {k : Nat}
    (hnext : c.nextRemoteSequence = position isn k) (hk : k ≤ data.length)
    (hbytes : payload <+: data.drop k) :
    Carries isn data k (nextSegment c acknowledgement payload) := by
  obtain ⟨-, hsyn, hfin, -⟩ := nextSegment_flags c acknowledgement payload
  refine ⟨(nextSegment_payloadSequence ..).trans hnext, hk, hbytes, ?_, ?_⟩
  · rw [hsyn]
    exact nofun
  · rw [hfin]
    exact nofun

/-- An acknowledgement number that is known already changes nothing before the request is out. -/
theorem receiveAcknowledgement_known {seg : Segment}
    (hknown : seg.acknowledgement = c.transmitAcknowledged) (hrequest : c.requestSent = false) :
    receiveAcknowledgement c seg = c := by
  rw [receiveAcknowledgement]
  split
  · have hsame : (c.requestAcknowledged ||
        (c.requestSent && seg.acknowledgement == c.nextSequence)) = c.requestAcknowledged := by
      rw [hrequest, Bool.false_and, Bool.or_false]
    rw [hsame, hknown]
    simp only [ite_self]
  · rfl

/-- It arrives, its payload is stored, and the acknowledgement goes out. -/
theorem deliver (hstack : s.stack = []) (hlisten : s.listening = true)
    (hopen : s.client.synAcknowledged = true) (hne : payload ≠ []) {acknowledgement : UInt32}
    (hstore : storePayload (receiveAcknowledgement s.client
      (nextSegment s.client acknowledgement payload)) payload = .ok c) :
    run [.arrive (nextSegment s.client acknowledgement payload), .sent true] s =
      some { s with client := c, wire := s.wire ++ [acknowledge c] } := by
  have hnext := nextSegment_payloadSequence s.client acknowledgement payload
  have hflags := nextSegment_flags s.client acknowledgement payload
  have hpayload : (nextSegment s.client acknowledgement payload).payload = payload := rfl
  generalize nextSegment s.client acknowledgement payload = seg at *
  obtain ⟨hrst, hsyn, hfin, -⟩ := hflags
  have hsame := receiveAcknowledgement_receiving s.client seg
  have hpart : receivePayload (receiveAcknowledgement s.client seg) seg =
      .ok (c, some ⟨acknowledge c, .payloadAcknowledged seg⟩) := by
    rw [receivePayload, if_neg (hpayload ▸ hne), acceptPayload,
      if_pos (hnext.trans (receiving_fields hsame).2.2.symm), hpayload, hstore]
    rfl
  have hhandle : handleSegment s.client seg =
      .ok (c, some ⟨acknowledge c, .payloadAcknowledged seg⟩) := by
    simp only [handleSegment, hrst, hsyn, hopen, Bool.false_and, Bool.not_true,
      Bool.false_eq_true, if_false]
    exact hpart
  have harrive : step s (.arrive seg) =
      some { s with client := c, stack := [⟨acknowledge c, .payloadAcknowledged seg⟩] } := by
    simp only [step, hlisten, if_true, hhandle, System.handled, hstack, List.append_nil,
      Option.toList_some]
  have hresume : resume (.payloadAcknowledged seg) true c = .ok (c, none) := by
    rw [resume, receiveFin, if_neg (by rw [hfin]; exact Bool.false_ne_true)]
  rw [run, steps, harrive, Option.bind_some, steps, step]
  simp only [hresume, System.handled, System.emit, Option.toList_none, List.nil_append, if_true,
    Option.bind_some, steps, hstack]

/-- The segment that answers a SYN. -/
def synSegment (c : Client) (isn : UInt32) : Segment :=
  ⟨0x12, isn, c.initialSequence + 1, tcpMaxPayload, []⟩

private theorem synSegment_flags (c : Client) (isn : UInt32) :
    (synSegment c isn).rst = false ∧ (synSegment c isn).syn = true ∧
      (synSegment c isn).fin = false ∧ (synSegment c isn).ack = true := by
  simp only [Segment.rst, Segment.syn, Segment.fin, Segment.ack, synSegment]
  decide

/-- It is the first segment of a peer. -/
theorem synSegment_carries (c : Client) (isn : UInt32) (data : Bytes) :
    Carries isn data 0 (synSegment c isn) := by
  obtain ⟨-, hsyn, hfin, -⟩ := synSegment_flags c isn
  refine ⟨?_, Nat.zero_le _, List.nil_prefix, fun _ => rfl, ?_⟩
  · rw [Segment.payloadSequence, if_pos hsyn, position]
    exact (UInt32.add_zero _).symm
  · rw [hfin]
    intro hno
    cases hno

/-- The client behind such a segment. -/
def opened (c : Client) (isn : UInt32) : Client :=
  { c with
    synAcknowledged := true
    nextRemoteSequence := isn + 1
    transmitAcknowledged := c.initialSequence + 1
    peerMss := tcpMaxPayload }

/-- It arrives, and the acknowledgement goes out. -/
theorem deliver_syn (hstack : s.stack = []) (hlisten : s.listening = true)
    (hnew : s.client.synAcknowledged = false) (hrequest : s.client.requestSent = false)
    (isn : UInt32) : run [.arrive (synSegment s.client isn), .sent true] s = some { s with
        client := opened s.client isn, wire := s.wire ++ [acknowledge (opened s.client isn)] } := by
  obtain ⟨hrst, hsyn, hfin, hack⟩ := synSegment_flags s.client isn
  have hhandle : handleSegment s.client (synSegment s.client isn) =
      .ok (opened s.client isn, some ⟨acknowledge (opened s.client isn),
        .synAcknowledged (synSegment s.client isn)⟩) := by
    have hmatch : ((synSegment s.client isn).acknowledgement == s.client.initialSequence + 1) =
        true := beq_self_eq_true _
    simp only [handleSegment, hrst, hsyn, hack, hnew, hmatch, Bool.and_self, Bool.not_false,
      Bool.false_eq_true, if_false, if_true]
    rfl
  have harrive : step s (.arrive (synSegment s.client isn)) =
      some { s with
        client := opened s.client isn
        stack := [⟨acknowledge (opened s.client isn),
          .synAcknowledged (synSegment s.client isn)⟩] } := by
    simp only [step, hlisten, if_true, hhandle, System.handled, hstack, List.append_nil,
      Option.toList_some]
  have hresume : resume (.synAcknowledged (synSegment s.client isn)) true (opened s.client isn) =
      .ok (opened s.client isn, none) := by
    have hknown : receiveAcknowledgement (opened s.client isn) (synSegment s.client isn) =
        opened s.client isn := receiveAcknowledgement_known rfl hrequest
    have hempty : (synSegment s.client isn).payload = [] := rfl
    rw [resume, hknown, receivePayload, if_pos hempty, receiveFin,
      if_neg (by rw [hfin]; exact Bool.false_ne_true)]
  rw [run, steps, harrive, Option.bind_some, steps, step]
  simp only [hresume, System.handled, System.emit, Option.toList_none, List.nil_append, if_true,
    Option.bind_some, steps, hstack]

end NasuaOS.Tcp
