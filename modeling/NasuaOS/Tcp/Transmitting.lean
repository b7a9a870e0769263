import NasuaOS.Tcp.Effects

/-!
# What handlers do to the sending side

A handler sets `reset` when a segment says so, takes the segment size of the peer when the connection
is opened, and counts its own FIN when that has been sent. It leaves everything else that the main
program sends by.
-/

namespace NasuaOS.Tcp

open Base

/-- The sending side of the client. -/
structure Transmitting where
  active : Bool
  reset : Bool
  localFinSent : Bool
  requestSent : Bool
  streamMode : Bool
  peerMss : Nat
  initialSequence : UInt32
  nextSequence : UInt32
  requestSequence : UInt32

/-- The sending side of a client. -/
def Client.transmitting (c : Client) : Transmitting where
  active := c.active
  reset := c.reset
  localFinSent := c.localFinSent
  requestSent := c.requestSent
  streamMode := c.streamMode
  peerMss := c.peerMss
  initialSequence := c.initialSequence
  nextSequence := c.nextSequence
  requestSequence := c.requestSequence

variable {c c' : Client} {seg : Segment} {pending : Option Pending}

private theorem receiveAcknowledgement_transmitting (c : Client) (seg : Segment) :
    (receiveAcknowledgement c seg).transmitting = c.transmitting := by
  rw [receiveAcknowledgement]
  split <;> rfl

private theorem receiveFin_transmitting (c : Client) (seg : Segment) :
    (receiveFin c seg).1.transmitting = c.transmitting := by
  rw [receiveFin]
  split
  · split <;> rfl
  · rfl

private theorem receivePayload_transmitting (h : receivePayload c seg = .ok (c', pending)) :
    c'.transmitting = c.transmitting := by
  rw [receivePayload] at h
  split at h
  · rw [Except.ok.injEq] at h
    have hfin := receiveFin_transmitting c seg
    rwa [h] at hfin
  · obtain ⟨c₁, hc₁, h⟩ := bind_eq_ok.mp h
    cases h
    rw [acceptPayload] at hc₁
    split at hc₁
    · obtain ⟨_, _, _, _, _, rfl⟩ := storePayload_ok hc₁
      rfl
    · cases hc₁
      rfl

/-- A segment that arrives can only set `reset` and the segment size. -/
theorem handleSegment_transmitting (h : handleSegment c seg = .ok (c', pending)) : c'.transmitting =
        { c.transmitting with reset := c.reset || seg.rst, peerMss := c'.peerMss } ∧
      (c'.peerMss = c.peerMss ∨ c'.peerMss = seg.mss) := by
  rw [handleSegment] at h
  split at h
  · next hrst =>
    cases h
    simp only [Client.transmitting, hrst, Bool.or_true, true_or, and_self]
  · next hrst =>
    have hsame : c.transmitting =
        { c.transmitting with reset := c.reset || seg.rst, peerMss := c.peerMss } := by
      simp only [Client.transmitting, hrst, Bool.or_false]
    split at h
    · cases h
      simp only [Client.transmitting, hrst, Bool.or_false, or_true, and_self]
    split at h
    · cases h
      exact ⟨hsame, .inl rfl⟩
    split at h
    · cases h
      exact ⟨hsame, .inl rfl⟩
    · have hafter := (receivePayload_transmitting h).trans
        (receiveAcknowledgement_transmitting c seg)
      have hmss : c'.peerMss = c.peerMss := congrArg Transmitting.peerMss hafter
      rw [hafter, hmss]
      exact ⟨hsame, .inl rfl⟩

/-- A handler that goes on can only count its FIN. -/
theorem resume_transmitting {point : Point} {sent : Bool}
    (h : resume point sent c = .ok (c', pending)) :
    c'.transmitting = if point = .finSent ∧ sent = true then
      { c.transmitting with nextSequence := c.nextSequence + 1, localFinSent := true }
      else c.transmitting := by
  cases point with
  | synAcknowledged seg =>
    rw [if_neg (by simp), receivePayload_transmitting h, receiveAcknowledgement_transmitting]
  | payloadAcknowledged seg =>
    rw [resume, Except.ok.injEq] at h
    have hfin := receiveFin_transmitting c seg
    rw [h] at hfin
    rw [if_neg (by simp)]
    exact hfin
  | finAcknowledged =>
    rw [resume] at h
    rw [if_neg (by simp)]
    split at h
    · cases h
      rfl
    · cases h
      rfl
  | finSent =>
    rw [resume] at h
    split at h
    · next hsent =>
      cases h
      rw [if_pos ⟨rfl, hsent⟩]
      rfl
    · next hsent =>
      cases h
      rw [if_neg fun h => hsent h.2]
  | done =>
    cases h
    rw [if_neg (by simp)]

end NasuaOS.Tcp
