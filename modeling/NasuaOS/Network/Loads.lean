import NasuaOS.Network.Stack

/-!
# What the driver loads and stores

The parts of the driver that only read a packet or fill a buffer stay inside it and return. The
lengths they are told are never more than what the packet has, and each round of a loop over a packet
moves its index on.
-/

namespace NasuaOS.Network

open Base List

variable {lazy : Prop} {packet payload options : Bytes} {length : Nat}
  {source destination : IPAddress}

variable {protocol : UInt8} {s : Net}

/-- The frame of a packet. -/
theorem ipv4Frame_yields {destinationMac macAddr : MACAddress} {id : Nat} (hmax : length ≤ 1480)
    (hlength : length ≤ payload.length) :
    Yields lazy (ipv4Frame destinationMac macAddr id source destination protocol payload length)
      fun frame => frame.length = 1514 := by
  rw [ipv4Frame]
  refine .bind (.putAll (length_replicate ..) (by simp)) fun frame h => ?_
  refine .bind (.checksum (by simp [h])) fun sum _ => ?_
  refine .bind (.bytesAt (by omega)) fun payload hpayload => ?_
  exact .putAll h (by simp; omega)

private theorem pseudoChecksum_yields (hmax : length ≤ 1480) (hlength : length ≤ packet.length) :
    Yields lazy (pseudoChecksum protocol source destination packet length)
      fun sum => sum < 2 ^ 16 := by
  rw [pseudoChecksum]
  refine .bind (.bytesAt (by omega)) fun packet hpacket => ?_
  refine .bind (.putAll (length_replicate ..) (by simp; omega)) fun buffer h => ?_
  exact .checksum (by omega)

/-- The packet of a datagram. -/
theorem udpPacket_yields {sourcePort destinationPort : Nat} (hmax : length ≤ 1472)
    (hlength : length ≤ payload.length) :
    Yields lazy (udpPacket source destination sourcePort destinationPort payload length)
      fun packet => packet.length = 1480 := by
  rw [udpPacket]
  refine .bind (.bytesAt (by omega)) fun payload hpayload => ?_
  refine .bind (.putAll (length_replicate ..) (by simp; omega)) fun packet h => ?_
  refine .bind (pseudoChecksum_yields (by omega) (by omega)) fun sum _ => ?_
  exact (Yields.putBytes (by simp [h])).mono fun _ hlast => hlast.trans h

/-- The packet of a segment. -/
theorem tcpSegment_yields {localPort remotePort : Nat} {o : Tcp.Outgoing}
    (h : o.payload.length ≤ 1460) :
    Yields lazy (tcpSegment source destination localPort remotePort o)
      fun segment => segment.length = 1480 := by
  rw [tcpSegment]
  refine .bind (.putAll (length_replicate ..) (by simp; omega)) fun segment hsegment => ?_
  refine .bind (pseudoChecksum_yields (by omega) (by omega)) fun sum _ => ?_
  exact (Yields.putBytes (by simp [hsegment])).mono fun _ hlast => hlast.trans hsegment

/-- An address inside a packet. -/
theorem readAddress_yields {i : Nat} (h : i + 4 ≤ packet.length) :
    Yields lazy (readAddress packet i) fun _ => True := by
  rw [readAddress, byteAt_eq (by omega), byteAt_eq (by omega), byteAt_eq (by omega),
    byteAt_eq (by omega)]
  exact .ok trivial

/-- A hardware address inside a packet. -/
theorem readMac_yields {i : Nat} (h : i + 6 ≤ packet.length) :
    Yields lazy (readMac packet i) fun _ => True := by
  rw [readMac, byteAt_eq (by omega), byteAt_eq (by omega), byteAt_eq (by omega),
    byteAt_eq (by omega), byteAt_eq (by omega), byteAt_eq (by omega)]
  exact .ok trivial

/-- The fixed part of a packet. -/
theorem replyIsMine_yields (h : length ≤ packet.length) :
    Yields lazy (replyIsMine s packet length) fun mine => mine = true → 240 ≤ length := by
  rw [replyIsMine]
  split
  · exact .pure nofun
  · next hlong =>
    refine .bind (.bytesAt (by omega)) fun start _ => ?_
    refine .bind (.readBe32 (by omega)) fun id _ => ?_
    refine .bind (readMac_yields (by omega)) fun hardware _ => ?_
    exact .pure fun _ => Nat.le_of_not_lt hlong

private theorem appendOption_yields {value : Bytes} {cursor size : Nat} {code : UInt8}
    (hsize : packet.length = size) (h : cursor + 2 + value.length ≤ size) :
    Yields lazy (appendOption packet cursor code value)
      fun r => r.1.length = size ∧ r.2 = cursor + 2 + value.length := by
  rw [appendOption]
  refine .bind (.putBytes ?_) fun buffer hbuffer => .pure ⟨hbuffer.trans hsize, rfl⟩
  simp only [length_cons]
  omega

private theorem appendRequest_yields {dhcp : Dhcp} {cursor size : Nat} {request : Bool}
    (hsize : packet.length = size) (h : cursor + 12 ≤ size) :
    Yields lazy (appendRequest dhcp packet cursor request)
      fun r => r.1.length = size ∧ r.2 ≤ cursor + 12 := by
  rw [appendRequest]
  split
  · refine .bind (appendOption_yields hsize (by simp; omega)) ?_
    rintro ⟨packet, _⟩ ⟨hsize, rfl⟩
    refine (appendOption_yields hsize (by simp; omega)).mono ?_
    rintro ⟨packet, _⟩ ⟨hsize, rfl⟩
    exact ⟨hsize, by simp⟩
  · exact .pure ⟨hsize, Nat.le_add_right _ _⟩

/-- The packet of a message. -/
theorem dhcpMessage_yields (dhcp : Dhcp) (macAddr : MACAddress) (elapsed : UInt64)
    (request : Bool) : Yields lazy (dhcpMessage dhcp macAddr elapsed request)
      fun r => r.1.length = 300 ∧ r.2 ≤ 300 := by
  rw [dhcpMessage]
  refine .bind (.putAll (length_replicate ..) (by simp)) fun packet h => ?_
  refine .bind (appendOption_yields h (by simp)) ?_
  rintro ⟨packet, _⟩ ⟨h, rfl⟩
  refine .bind (appendOption_yields h (by simp)) ?_
  rintro ⟨packet, _⟩ ⟨h, rfl⟩
  refine .bind (appendRequest_yields h (by simp)) ?_
  rintro ⟨packet, cursor⟩ ⟨h, hcursor⟩
  have hcursor : cursor ≤ 264 := hcursor
  have h : packet.length = 300 := h
  refine .bind (appendOption_yields h ?_) ?_
  · simp only [length_cons, length_nil]
    omega
  · rintro ⟨packet, _⟩ ⟨h, rfl⟩
    have h : packet.length = 300 := h
    simp only [length_cons, length_nil]
    refine .bind (.putBytes ?_) fun buffer hbuffer => .pure ⟨hbuffer.trans h, ?_⟩
    · simp only [length_cons, length_nil]
      omega
    · omega

section

variable (h : length ≤ packet.length)

include h

section

variable (hlow : length < 2 ^ 16)

include hlow

private theorem skipName_yields {fuel offset : Nat} (hfuel : length - offset < fuel) :
    Yields lazy (skipName packet length fuel offset) fun _ => True := by
  induction fuel generalizing offset with
  | zero => omega
  | succ fuel ih =>
    rw [skipName]
    split
    · refine .bind (.byteAt (by omega)) fun label _ => ?_
      change Yields lazy (if _ then _ else _) _
      split
      · exact .pure trivial
      split
      · split
        · exact .pure trivial
        · exact .bind (.byteAt (by omega)) fun low _ => .pure trivial
      split
      · exact .pure trivial
      · apply ih
        rw [Nat.mod_eq_of_lt (by omega)]
        omega
    · exact .pure trivial

private theorem answerLoop_yields (answers offset : Nat) :
    Yields lazy (answerLoop packet length answers offset) fun _ => True := by
  induction answers generalizing offset with
  | zero => exact .pure trivial
  | succ answers ih =>
    rw [answerLoop]
    refine .bind (skipName_yields h hlow (by omega)) ?_
    rintro ⟨named, offset⟩ -
    change Yields lazy (if _ then _ else _) _
    split
    · exact .pure trivial
    · next hfits =>
      have hten : 10 ≤ length - offset := by simp at hfits; omega
      refine .bind (.readBe16 (by omega)) fun type _ => ?_
      refine .bind (.readBe16 (by omega)) fun recordClass _ => ?_
      refine .bind (.readBe16 (by omega)) fun dataLength _ => ?_
      change Yields lazy (if _ then _ else _) _
      split
      · exact .pure trivial
      split
      · exact .bind (readAddress_yields (by omega)) fun a _ => .pure trivial
      · exact ih _

private theorem skipQuestion_yields : Yields lazy (skipQuestion packet length) fun _ => True := by
  rw [skipQuestion]
  refine .bind (skipName_yields h hlow (by omega)) ?_
  rintro ⟨named, offset⟩ -
  change Yields lazy (if _ then _ else _) _
  split
  · exact .pure trivial
  · next hfits =>
    have hfour : 4 ≤ length - offset := by simp at hfits; omega
    refine .bind (.readBe16 (by omega)) fun type _ => ?_
    refine .bind (.readBe16 (by omega)) fun questionClass _ => ?_
    split
    · exact .pure trivial
    · exact .pure trivial

/-- What a response says. -/
theorem dnsAnswer_yields (hlong : 12 ≤ length) :
    Yields lazy (dnsAnswer packet length) fun _ => True := by
  rw [dnsAnswer]
  refine .bind (.readBe16 (by omega)) fun flags _ => ?_
  refine .bind (.readBe16 (by omega)) fun questionCount _ => ?_
  refine .bind (.readBe16 (by omega)) fun answerCount _ => ?_
  split
  · exact .pure trivial
  · refine .bind (skipQuestion_yields h hlow) fun offset _ => ?_
    cases offset with
    | none => exact .pure trivial
    | some offset =>
      change Yields lazy (if _ then _ else _) _
      split
      · exact .pure trivial
      · exact answerLoop_yields h hlow _ _

end

end

/-- The checksum of a datagram. -/
theorem udpVerifies_yields {udpLength : Nat} (hlow : 8 ≤ udpLength) (hmax : udpLength ≤ 1480)
    (h : udpLength ≤ packet.length) :
    Yields lazy (udpVerifies source destination packet udpLength) fun _ => True := by
  rw [udpVerifies]
  refine .bind (.readBe16 (by omega)) fun sum _ => ?_
  split
  · exact .pure trivial
  · exact .bind (pseudoChecksum_yields hmax h) fun _ _ => .pure trivial

private theorem mssLoop_yields (h : length ≤ options.length) (hlow : length < 2 ^ 16)
    {fuel index : Nat} (hfuel : length - index < fuel) (mss : Nat) :
    Yields lazy (mssLoop options length fuel index mss) fun found => found ≤ mss := by
  induction fuel generalizing index mss with
  | zero => omega
  | succ fuel ih =>
    rw [mssLoop]
    split
    · refine .bind (.byteAt (by omega)) fun kind _ => ?_
      split
      · exact .pure le_rfl
      split
      · exact ih (by omega) mss
      split
      · exact .pure le_rfl
      · refine .bind (.byteAt (by omega)) fun optionLength _ => ?_
        split
        · exact .pure le_rfl
        · next hfits =>
          have htwo : 2 ≤ optionLength.toNat := by
            rw [not_or, UInt8.not_lt, UInt8.le_iff_toNat_le] at hfits
            exact hfits.1
          have htake : Yields lazy (takeMss options index kind optionLength mss) (· ≤ mss) := by
            rw [takeMss]
            split
            · next hkind =>
              have hfour : optionLength.toNat = 4 := congrArg UInt8.toNat hkind.2
              refine .bind (.readBe16 (by omega)) fun _ _ => .pure ?_
              split <;> omega
            · exact .pure le_rfl
          refine .bind htake fun found hle => (ih ?_ found).mono fun _ h => h.trans hle
          rw [Nat.mod_eq_of_lt (by omega)]
          omega
    · exact .pure le_rfl

/-- The segment of a packet. The size that its options allow is at most the largest one. -/
theorem readSegment_yields (hmax : length ≤ 1480) (h : length ≤ packet.length) :
    Yields lazy (readSegment s source destination packet length)
      fun segment => ∀ seg ∈ segment, s.client.active = true ∧ seg.mss ≤ Tcp.tcpMaxPayload := by
  rw [readSegment]
  split
  · exact .pure nofun
  · next hchecks =>
    simp only [Bool.or_eq_true, Bool.not_eq_true', decide_eq_true_eq, not_or,
      Bool.not_eq_false] at hchecks
    obtain ⟨⟨⟨hactive, hlong⟩, -⟩, -⟩ := hchecks
    refine .bind (.readBe16 (by omega)) fun sourcePort _ => ?_
    refine .bind (.readBe16 (by omega)) fun destinationPort _ => ?_
    split
    · exact .pure nofun
    · refine .bind (.byteAt (by omega)) fun first _ => ?_
      change Yields lazy (if _ then _ else _) _
      split
      · exact .pure nofun
      · next hheader =>
        refine .bind (pseudoChecksum_yields hmax h) fun sum _ => ?_
        split
        · exact .pure nofun
        · refine .bind (.byteAt (by omega)) fun flags _ => ?_
          refine .bind (.readBe32 (by omega)) fun sequence _ => ?_
          refine .bind (.readBe32 (by omega)) fun acknowledgement _ => ?_
          refine .bind (mssLoop_yields ?_ (by omega) (by omega) _) fun mss hmss => ?_
          · rw [length_drop]
            omega
          · refine .bind (.bytesAt (by omega)) fun payload _ => .pure ?_
            rintro _ ⟨⟩
            exact ⟨hactive, hmss⟩

/-- The test for a DHCP reply. -/
theorem pendingDhcpReply_yields (h : length ≤ payload.length) :
    Yields lazy (pendingDhcpReply s protocol payload length)
      fun pending => pending = true → s.ipAddr.b0 = 0 := by
  rw [pendingDhcpReply]
  split
  · next hwaits => exact .bind (.readBe16 (by omega)) fun _ _ => .pure fun _ => hwaits.1
  · exact .pure (by simp)

end NasuaOS.Network
