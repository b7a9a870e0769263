import NasuaOS.Tcp.Effects

/-!
# The stream of a peer

A peer with the initial sequence number `isn` sends the bytes of a stream, numbered from `isn + 1`
on, and a FIN behind the last one. The network may cut, repeat, reorder and lose its segments. As
long as no segment is a whole round of the sequence numbers away from the byte that is awaited, a
segment in order carries exactly the bytes that are awaited.
-/

namespace NasuaOS.Tcp

open Base

/-- The sequence number of the byte at an offset of the stream. -/
def position (isn : UInt32) (offset : Nat) : UInt32 := isn + 1 + UInt32.ofNat offset

variable {isn : UInt32} {data : Bytes} {a b k n offset : Nat}

/-- Go on from a position. -/
theorem position_add (isn : UInt32) (a b : Nat) :
    position isn a + UInt32.ofNat b = position isn (a + b) := by
  rw [position, position, UInt32.ofNat_add, UInt32.add_assoc]

/-- Equal positions less than one round apart are the same offset. -/
theorem position_inj (h : position isn a = position isn b) (hab : a < b + 2 ^ 32)
    (hba : b < a + 2 ^ 32) : a = b := by
  have hnat : UInt32.ofNat a = UInt32.ofNat b := UInt32.add_right_inj _ |>.mp h
  have hmod : a % 2 ^ 32 = b % 2 ^ 32 := by
    simpa only [UInt32.toNat_ofNat'] using congrArg UInt32.toNat hnat
  omega

/-- A segment that carries bytes of the stream, its beginning or its end. -/
structure Carries (isn : UInt32) (data : Bytes) (offset : Nat) (seg : Segment) : Prop where
  start : seg.payloadSequence = position isn offset
  inside : offset ≤ data.length
  bytes : seg.payload <+: data.drop offset
  syn : seg.syn = true → offset = 0
  fin : seg.fin = true → offset + seg.payload.length = data.length

/-- A segment of the peer. One without SYN, FIN and payload may have any sequence number. -/
def FromPeer (isn : UInt32) (data : Bytes) (seg : Segment) : Prop :=
  (seg.syn = false ∧ seg.fin = false ∧ seg.payload = []) ∨ ∃ offset, Carries isn data offset seg

/-- A segment of the peer that is less than one round of the sequence numbers away from the byte that
is awaited when `k` bytes have been accepted. -/
def Current (isn : UInt32) (data : Bytes) (k : Nat) (seg : Segment) : Prop :=
  (seg.syn = false ∧ seg.fin = false ∧ seg.payload = []) ∨
    ∃ offset, Carries isn data offset seg ∧ offset + seg.payload.length < k + 2 ^ 32 ∧
      k + 1 < offset + 2 ^ 32

variable {c c' : Client} {seg : Segment}

private theorem Carries.end_le (h : Carries isn data offset seg) :
    offset + seg.payload.length ≤ data.length := by
  have hlen := h.bytes.length_le
  have hin := h.inside
  rw [List.length_drop] at hlen
  omega

/-- In a stream shorter than one round every segment is current. -/
theorem FromPeer.current (h : FromPeer isn data seg) (hdata : data.length + 1 < 2 ^ 32)
    (hk : k ≤ data.length) : Current isn data k seg := by
  refine h.imp_right ?_
  rintro ⟨offset, hcarries⟩
  have hend := hcarries.end_le
  exact ⟨offset, hcarries, by omega, by omega⟩

/-- How far the client got in the stream: it has accepted `k` bytes of it. -/
structure Reached (isn : UInt32) (data : Bytes) (c : Client) (k : Nat) : Prop where
  bound : k ≤ data.length
  fresh : c.synAcknowledged = false → k = 0 ∧ c.peerClosed = false ∧ c.nextRemoteSequence = 0
  next : c.synAcknowledged = true → c.nextRemoteSequence = position isn (k + c.peerClosed.toNat)
  closed : c.peerClosed = true → k = data.length

/-- The part of the client this is about. -/
theorem Reached.congr (h : Reached isn data c k) (hsame : c'.receiving = c.receiving) :
    Reached isn data c' k := by
  obtain ⟨hs, hp, hn⟩ := receiving_fields hsame
  refine ⟨h.bound, ?_, ?_, ?_⟩
  · rw [hs, hp, hn]
    exact h.fresh
  · rw [hs, hp, hn]
    exact h.next
  · rw [hp]
    exact h.closed

/-- A new client has accepted nothing. -/
theorem Reached.start (hs : c.synAcknowledged = false) (hp : c.peerClosed = false)
    (hn : c.nextRemoteSequence = 0) : Reached isn data c 0 := by
  refine ⟨Nat.zero_le _, fun _ => ⟨rfl, hp, hn⟩, ?_, ?_⟩
  · intro h
    rw [hs] at h
    cases h
  · intro h
    rw [hp] at h
    cases h

/-- A payload in order is what the stream has behind the accepted bytes. -/
theorem Reached.payload (h : Reached isn data c k) (hseg : Current isn data k seg)
    (hopen : c.synAcknowledged = true) (hne : seg.payload ≠ [])
    (hnext : seg.payloadSequence = c.nextRemoteSequence) :
    c.peerClosed = false ∧ seg.payload <+: data.drop k := by
  obtain ⟨-, -, hempty⟩ | ⟨offset, hcarries, hhigh, hlow⟩ := hseg
  · exact absurd hempty hne
  have hbit := Bool.toNat_le c.peerClosed
  have hoffset : offset = k + c.peerClosed.toNat := by
    apply @position_inj isn
    · rw [← hcarries.start, hnext, h.next hopen]
    · omega
    · omega
  have hpos := List.length_pos_iff.mpr hne
  have hend := hcarries.end_le
  cases hclosed : c.peerClosed with
  | true =>
    have hk := h.closed hclosed
    omega
  | false =>
    rw [hclosed, Bool.toNat_false, Nat.add_zero] at hoffset
    exact ⟨rfl, hoffset ▸ hcarries.bytes⟩

/-- A FIN in order stands behind the last byte. -/
theorem Reached.fin (h : Reached isn data c k) (hseg : Current isn data k seg)
    (hopen : c.synAcknowledged = true) (hfin : seg.fin = true)
    (hnext : seg.payloadEnd = c.nextRemoteSequence) : c.peerClosed = false ∧ k = data.length := by
  obtain ⟨-, hno, -⟩ | ⟨offset, hcarries, hhigh, hlow⟩ := hseg
  · rw [hno] at hfin
    cases hfin
  have hbit := Bool.toNat_le c.peerClosed
  have hoffset : offset + seg.payload.length = k + c.peerClosed.toNat := by
    apply @position_inj isn
    · rw [← position_add, ← hcarries.start, ← h.next hopen, ← hnext]
      rfl
    · omega
    · omega
  have hend := hcarries.fin hfin
  cases hclosed : c.peerClosed with
  | true =>
    have hk := h.closed hclosed
    rw [hclosed, Bool.toNat_true] at hoffset
    omega
  | false =>
    rw [hclosed, Bool.toNat_false] at hoffset
    exact ⟨rfl, by omega⟩

/-- A segment takes the client further in the stream by the bytes that are accepted. -/
theorem Reached.effect (h : Reached isn data c k) (hseg : Current isn data k seg)
    (heffect : Effect c seg c' n) : Reached isn data c' (k + n) := by
  cases heffect with
  | quiet hsame => exact h.congr hsame
  | opened hsyn hnew hafter =>
    obtain ⟨hk, hclosed, -⟩ := h.fresh hnew
    have hs : c'.synAcknowledged = true := congrArg Receiving.synAcknowledged hafter
    have hp : c'.peerClosed = false := (congrArg Receiving.peerClosed hafter).trans hclosed
    have hn : c'.nextRemoteSequence = seg.sequence + 1 :=
      congrArg Receiving.nextRemoteSequence hafter
    refine ⟨h.bound, ?_, ?_, ?_⟩
    · intro hfalse
      rw [hs] at hfalse
      cases hfalse
    · intro _
      obtain ⟨hno, -, -⟩ | ⟨offset, hcarries, -, -⟩ := hseg
      · rw [hno] at hsyn
        cases hsyn
      · have hstart := hcarries.start
        rw [Segment.payloadSequence, if_pos hsyn, hcarries.syn hsyn] at hstart
        rw [hn, hp, hk, hstart]
        rfl
    · intro hfalse
      rw [hp] at hfalse
      cases hfalse
  | stored c₁ hopen hne hnext hsame hstore =>
    obtain ⟨hclosed, hbytes⟩ := h.payload hseg hopen hne hnext
    obtain ⟨_, _, _, _, _, hafter⟩ := storePayload_ok hstore
    obtain ⟨hs, hp, hn⟩ := receiving_fields (congrArg Client.receiving hafter)
    obtain ⟨hs', hp', hn'⟩ := receiving_fields hsame
    have hlen := hbytes.length_le
    have hbound := h.bound
    rw [List.length_drop] at hlen
    rw [hs', hopen] at hs
    rw [hp', hclosed] at hp
    refine ⟨by omega, ?_, ?_, ?_⟩
    · intro hfalse
      rw [hs] at hfalse
      cases hfalse
    · intro _
      rw [hn, hn', h.next hopen, hp, hclosed, position_add]
      rfl
    · intro hfalse
      rw [hp] at hfalse
      cases hfalse
  | closed hopen hfin hnext hafter =>
    obtain ⟨hclosed, hk⟩ := h.fin hseg hopen hfin hnext
    have hs : c'.synAcknowledged = true :=
      (congrArg Receiving.synAcknowledged hafter).trans hopen
    have hp : c'.peerClosed = true := congrArg Receiving.peerClosed hafter
    have hn : c'.nextRemoteSequence = c.nextRemoteSequence + 1 :=
      congrArg Receiving.nextRemoteSequence hafter
    refine ⟨h.bound, ?_, ?_, fun _ => hk⟩
    · intro hfalse
      rw [hs] at hfalse
      cases hfalse
    · intro _
      rw [hn, h.next hopen, hclosed, hp]
      exact position_add isn k 1

end NasuaOS.Tcp
