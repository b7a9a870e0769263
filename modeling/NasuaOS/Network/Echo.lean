import NasuaOS.Network.Loads

/-!
# Accepted packets, and the echo of ICMP

`src/resources/drivers/network/functions/ipv4.cpp:142–230`. What `handle_ipv4` checks is a property of
the bytes of the packet, whatever options its header has. An echo request is answered with its own
message, as a reply and with a new checksum.
-/

namespace NasuaOS.Network

open Base List

variable {line : Line} {resolve : Resolve} {packet payload : Bytes} {length : Nat}

/-- The 16-bit number at a place of a packet. -/
def be16At (packet : Bytes) (i : Nat) : Nat :=
  (packet.getD i 0).toNat * 256 + (packet.getD (i + 1) 0).toNat

/-- The address at a place of a packet. -/
def addressAt (packet : Bytes) (i : Nat) : IPAddress :=
  ⟨packet.getD i 0, packet.getD (i + 1) 0, packet.getD (i + 2) 0, packet.getD (i + 3) 0⟩

/-- The length of the header with its options. -/
def headerLength (packet : Bytes) : Nat := (packet.getD 0 0 &&& 0x0F).toNat * 4

/-- A valid, unfragmented packet in the first `length` bytes. -/
structure ValidIpv4 (packet : Bytes) (length : Nat) : Prop where
  version : packet.getD 0 0 >>> 4 = 4
  header : 20 ≤ headerLength packet
  total : headerLength packet ≤ be16At packet 2
  fits : be16At packet 2 ≤ length
  sum : onesChecksum (packet.take (headerLength packet)) = 0
  whole : be16At packet 6 &&& 0x3FFF = 0

variable {i : Nat}

private theorem byteAt_getD (h : i < packet.length) : byteAt packet i = .ok (packet.getD i 0) := by
  rw [byteAt_eq h, getD, getElem?_eq_getElem h]
  rfl

/-- A number inside a packet. -/
theorem readBe16_eq (h : i + 2 ≤ packet.length) : readBe16 packet i = .ok (be16At packet i) := by
  rw [readBe16, byteAt_getD (by omega), byteAt_getD (by omega)]
  rfl

private theorem readAddress_eq (h : i + 4 ≤ packet.length) :
    readAddress packet i = .ok (addressAt packet i) := by
  rw [readAddress, byteAt_getD (by omega), byteAt_getD (by omega), byteAt_getD (by omega),
    byteAt_getD (by omega)]
  rfl

private theorem checksum_eq {n : Nat} (h : n ≤ packet.length) :
    checksum packet n = .ok (onesChecksum (packet.take n)) := by
  have happend := checksum_append (packet.take n) (packet.drop n)
  rwa [take_append_drop, length_take, Nat.min_eq_left h] at happend

/-- What `handle_ipv4` does: only a valid packet is handed on, and one for another host only while
the host has no address. -/
theorem handleIpv4_run (h : length ≤ packet.length) (s : Net) :
    (ValidIpv4 packet length ∧ ∃ pending : Bool, (pending = true → s.ipAddr.b0 = 0) ∧
      handleIpv4 line resolve packet length s =
        if isLocalDestination s.ipAddr (addressAt packet 16) || pending then
          handleProtocol line resolve (packet.getD 9 0) (addressAt packet 12) (addressAt packet 16)
            (packet.drop (headerLength packet)) (be16At packet 2 - headerLength packet) s
        else .ok (⟨⟩, s)) ∨
      ¬ ValidIpv4 packet length ∧ handleIpv4 line resolve packet length s = .ok (⟨⟩, s) := by
  rw [handleIpv4]
  split
  · exact .inr ⟨fun hv => by have := hv.header; have := hv.total; have := hv.fits; omega, rfl⟩
  rw [run_read (byteAt_getD (by omega)), run_read (readBe16_eq (by omega))]
  split
  · next hbad =>
    refine .inr ⟨fun hv => ?_, rfl⟩
    have := hv.header
    have := hv.total
    have := hv.fits
    rcases hbad with hbad | hbad
    · exact hbad hv.version
    · rw [← headerLength] at hbad
      omega
  · next hgood =>
    rw [← headerLength] at hgood ⊢
    simp only [not_or, not_lt, ne_eq, not_not] at hgood
    obtain ⟨hversion, hheader, hpacket, htotal, hfits⟩ := hgood
    rw [run_read (checksum_eq (by omega))]
    split
    · next hsum => exact .inr ⟨fun hv => hsum hv.sum, rfl⟩
    rw [run_read (readBe16_eq (by omega))]
    split
    · next hwhole => exact .inr ⟨fun hv => hwhole hv.whole, rfl⟩
    · next hsum hwhole =>
      simp only [ne_eq, not_not] at hsum hwhole
      rw [run_read (readAddress_eq (by omega)), run_read (readAddress_eq (by omega)),
        run_read (byteAt_getD (by omega)), run_get]
      have hrest : be16At packet 2 - headerLength packet ≤
          (packet.drop (headerLength packet)).length := by
        rw [length_drop]
        omega
      obtain ⟨pending, hpending, haddress⟩ : ∃ pending, pendingDhcpReply s (packet.getD 9 0) _ _ =
          .ok pending ∧ (pending = true → s.ipAddr.b0 = 0) :=
        (pendingDhcpReply_yields hrest).returns
      refine .inl ⟨⟨hversion, hheader, htotal, hfits, hsum, hwhole⟩, pending, haddress, ?_⟩
      rw [run_read hpending]
      cases isLocalDestination s.ipAddr (addressAt packet 16) <;> cases pending <;> rfl

/-- The message of a packet. -/
def message (packet : Bytes) : Bytes :=
  (packet.drop (headerLength packet)).take (be16At packet 2 - headerLength packet)

/-- An echo request to a host with an address. -/
structure EchoRequest (ipAddr : IPAddress) (packet : Bytes) (length : Nat) : Prop
    extends ValidIpv4 packet length where
  address : ipAddr.b0 ≠ 0
  addressed : addressAt packet 16 = ipAddr ∨ isBroadcast (addressAt packet 16) = true
  protocol : packet.getD 9 0 = 1
  long : 8 ≤ (message packet).length
  type : (message packet).getD 0 0 = 8
  checksum : onesChecksum (message packet) = 0

/-- The reply: type 0, and a new checksum. -/
def replyTo (request : Bytes) (sum : Nat) : Bytes :=
  [0, request.getD 1 0] ++ bytes16 sum ++ request.drop 4

private theorem echoReply_eq (hlow : 8 ≤ length) (hmax : length ≤ 1480) (h : length ≤ payload.length) :
    ∃ sum, onesChecksum (replyTo (payload.take length) sum) = 0 ∧ echoReply payload length =
        .ok (replyTo (payload.take length) sum ++ replicate (1480 - length) 0) := by
  have hlength := length_take_of_le h
  have hload : bytesAt payload 0 length = .ok (payload.take length) := by
    have hleft := bytesAt_left (payload.take length) (payload.drop length)
    rwa [take_append_drop, hlength] at hleft
  generalize payload.take length = request at hlength hload ⊢
  obtain _ | ⟨type, _ | ⟨code, _ | ⟨k, _ | ⟨l, tail⟩⟩⟩⟩ := request
  iterate 4 simp only [length_cons, length_nil] at hlength; omega
  subst hlength
  let reply (sum : Nat) : Bytes := [0, code] ++ bytes16 sum ++ tail
  let zeros : Bytes := replicate (1480 - (tail.length + 4)) 0
  have hput : putAll (replicate 1480 0)
      [(0, type :: code :: k :: l :: tail), (0, [0]), (2, bytes16 0)] = .ok (reply 0 ++ zeros) := by
    have hzeros := putBytes_zeros [] (type :: code :: k :: l :: tail) hmax
    rw [nil_append, length_nil] at hzeros
    rw [putAll, hzeros]
    rfl
  have hsum : checksum (reply 0 ++ zeros) (tail.length + 4) = .ok (onesChecksum (reply 0)) :=
    checksum_append (reply 0) zeros
  have hstore (sum : Nat) : putBytes ([0, code] ++ (bytes16 0 ++ (tail ++ zeros))) 2 (bytes16 sum) =
      .ok ([0, code] ++ (bytes16 sum ++ (tail ++ zeros))) := putBytes_append rfl
  refine ⟨onesChecksum (reply 0), onesChecksum_field [0, code] tail (by simp) ?_, ?_⟩
  · simp only [length_cons, length_nil] at hmax ⊢
    omega
  · refine bind_eq_ok.mpr ⟨_, hload, bind_eq_ok.mpr ⟨_, hput, bind_eq_ok.mpr ⟨_, hsum, ?_⟩⟩⟩
    exact hstore _

/-- What a message of ICMP with a correct checksum leads to. -/
theorem handleIcmp_run (source : IPAddress) (hlow : 8 ≤ length) (hmax : length ≤ 1480)
    (h : length ≤ payload.length) (s : Net) : ((payload.getD 0 0 = 8 ∧ s.ipAddr.b0 ≠ 0) ∧ ∃ sum,
      onesChecksum (replyTo (payload.take length) sum) = 0 ∧
      handleIcmp line resolve source payload length s =
        (discard <| sendIpv4 line resolve .ipAddr source 1
          (replyTo (payload.take length) sum ++ replicate (1480 - length) 0) length) s) ∨
      ¬ (payload.getD 0 0 = 8 ∧ s.ipAddr.b0 ≠ 0) ∧
        ∃ ping, handleIcmp line resolve source payload length s =
          .ok (⟨⟩, { s with ping := ping }) := by
  rw [handleIcmp, run_read (readBe16_eq (by omega)), run_read (readBe16_eq (by omega)),
    run_read (byteAt_getD (by omega)), run_read (byteAt_getD (by omega)), run_get]
  split
  · next htype =>
    obtain ⟨sum, hsum, hreply⟩ := echoReply_eq hlow hmax h
    rw [run_read hreply]
    exact .inl ⟨htype, sum, hsum, rfl⟩
  · next htype =>
    refine .inr ⟨htype, ?_⟩
    split
    · exact ⟨_, rfl⟩
    · exact ⟨s.ping, rfl⟩

private theorem isLocalDestination_iff {ipAddr address : IPAddress} (h : ipAddr.b0 ≠ 0) :
    isLocalDestination ipAddr address = true ↔ address = ipAddr ∨ isBroadcast address = true := by
  rw [isLocalDestination]
  split
  · next hzero =>
    subst hzero
    simp only [beq_iff_eq, h, false_iff, not_or]
    exact ⟨fun heq => h (heq ▸ rfl), by decide⟩
  split
  · next hbroadcast => simp [hbroadcast]
  · next hbroadcast => simp [hbroadcast]

/-- Exactly one packet is passed to `send_ipv4` for an echo request to the host, or to everyone: the
same message to its sender, as a reply whose checksum verifies. Another packet is dropped, is the
reply to a ping, or is one of UDP or TCP. -/
theorem handleIpv4_echo (hmax : length ≤ 1500) (h : length ≤ packet.length) (s : Net) :
    (EchoRequest s.ipAddr packet length → ∃ sum, onesChecksum (replyTo (message packet) sum) = 0 ∧
        handleIpv4 line resolve packet length s =
          (discard <| sendIpv4 line resolve .ipAddr (addressAt packet 12) 1
            (replyTo (message packet) sum ++ replicate (1480 - (message packet).length) 0)
            (message packet).length) s) ∧
      (¬ EchoRequest s.ipAddr packet length →
        (∃ ping, handleIpv4 line resolve packet length s = .ok (⟨⟩, { s with ping := ping })) ∨
        (packet.getD 9 0 = 17 ∧ handleIpv4 line resolve packet length s =
          handleUdp line resolve (addressAt packet 12) (addressAt packet 16)
            (packet.drop (headerLength packet)) (be16At packet 2 - headerLength packet) s) ∨
        packet.getD 9 0 = 6 ∧ handleIpv4 line resolve packet length s =
          handleTcp line resolve (addressAt packet 12) (addressAt packet 16)
            (packet.drop (headerLength packet)) (be16At packet 2 - headerLength packet) s) := by
  rcases handleIpv4_run h s with ⟨hvalid, pending, hpending, hrun⟩ | ⟨hno, hrun⟩
  · have htotal := hvalid.total
    have hheader := hvalid.header
    have hfits := hvalid.fits
    have hrest : be16At packet 2 - headerLength packet ≤
        (packet.drop (headerLength packet)).length := by
      rw [length_drop]
      omega
    have hmessage : (message packet).length = be16At packet 2 - headerLength packet :=
      length_take_of_le hrest
    rw [hrun, hmessage]
    split
    · next hlocal =>
      rw [handleProtocol]
      split
      · next hudp =>
        refine ⟨fun hr => ?_, fun _ => .inr (.inl ⟨hudp, rfl⟩)⟩
        exact absurd (hudp.symm.trans hr.protocol) (by decide)
      split
      · next htcp =>
        refine ⟨fun hr => ?_, fun _ => .inr (.inr ⟨htcp, rfl⟩)⟩
        exact absurd (htcp.symm.trans hr.protocol) (by decide)
      split
      · next hicmp =>
        have hfirst : (message packet).getD 0 0 = (packet.drop (headerLength packet)).getD 0 0 := by
          rw [getD, getD, message, getElem?_take_of_lt (by omega)]
        rw [run_read (checksum_eq hrest)]
        split
        · next hsum =>
          rcases handleIcmp_run (addressAt packet 12) hicmp.2 (by omega) hrest s with
            ⟨⟨htype, haddress⟩, hreply⟩ | ⟨htype, hping⟩
          · have hreach : isLocalDestination s.ipAddr (addressAt packet 16) = true := by
              rw [Bool.or_eq_true] at hlocal
              exact hlocal.resolve_right fun hp => haddress (hpending hp)
            refine ⟨fun _ => hreply, fun hno => absurd ⟨hvalid, haddress, ?_, hicmp.1, ?_, ?_,
              hsum⟩ hno⟩
            · exact (isLocalDestination_iff haddress).mp hreach
            · exact hmessage ▸ hicmp.2
            · exact hfirst.trans htype
          · exact ⟨fun hr => absurd ⟨hfirst.symm.trans hr.type, hr.address⟩ htype,
              fun _ => .inl hping⟩
        · next hsum => exact ⟨fun hr => absurd hr.checksum hsum, fun _ => .inl ⟨s.ping, rfl⟩⟩
      · next hicmp =>
        exact ⟨fun hr => absurd ⟨hr.protocol, hmessage ▸ hr.long⟩ hicmp, fun _ => .inl ⟨s.ping, rfl⟩⟩
    · next hlocal =>
      refine ⟨fun hr => absurd ?_ hlocal, fun _ => .inl ⟨s.ping, rfl⟩⟩
      rw [(isLocalDestination_iff hr.address).mpr hr.addressed]
      rfl
  · exact ⟨fun hr => absurd hr.toValidIpv4 hno, fun _ => .inl ⟨s.ping, hrun⟩⟩

/-- A request without data that 10.0.0.2 sends to 10.0.0.1. -/
def echoPacket : Bytes :=
  [0x45, 0, 0, 28, 0, 1, 0x40, 0, 64, 1, 0x26, 0xDE, 10, 0, 0, 2, 10, 0, 0, 1] ++
    [8, 0, 0xF7, 0xFD, 0, 1, 0, 1]

/-- It is answered. -/
theorem handleIpv4_echo_answer :
    ∃ sum, onesChecksum (replyTo (message echoPacket) sum) = 0 ∧
      handleIpv4 .still (fun _ => pure none) echoPacket 28
          { Net.initial ⟨2, 0, 0, 0, 0, 1⟩ with ipAddr := ⟨10, 0, 0, 1⟩ } =
        (discard <| sendIpv4 .still (fun _ => pure none) .ipAddr ⟨10, 0, 0, 2⟩ 1
          (replyTo (message echoPacket) sum ++ replicate 1472 0) 8)
          { Net.initial ⟨2, 0, 0, 0, 0, 1⟩ with ipAddr := ⟨10, 0, 0, 1⟩ } :=
  (handleIpv4_echo (by decide) (by decide) _).1
    ⟨⟨by decide, by decide, by decide, by decide, by decide, by decide⟩, by decide, by decide,
      by decide, by decide, by decide, by decide⟩

/-- In every state: when one word of the header of a valid packet is damaged, other than the first one
and not from one zero to the other, `handle_ipv4` ignores the packet and changes nothing. -/
theorem handleIpv4_damaged {before after : Bytes} {word damaged : Nat}
    (hvalid : ValidIpv4 (before ++ bytes16 word ++ after) length)
    (hlength : length ≤ before.length + 2 + after.length) (heven : before.length % 2 = 0)
    (hfirst : 0 < before.length) (hheader : before.length + 2 ≤ headerLength before)
    (hword : word < 2 ^ 16) (hdamaged : damaged < 2 ^ 16) (hne : word % 65535 ≠ damaged % 65535)
    (s : Net) : handleIpv4 line resolve (before ++ bytes16 damaged ++ after) length s =
      .ok ((), s) := by
  have hlen (w : Nat) : (before ++ bytes16 w).length = before.length + 2 := length_append
  -- The first byte says how much is summed up.
  have hsame (w : Nat) : headerLength (before ++ bytes16 w ++ after) = headerLength before := by
    simp only [headerLength, getD, append_assoc, getElem?_append_left hfirst]
  have hverify (w : Nat) (hv : ValidIpv4 (before ++ bytes16 w ++ after) length) :
      onesChecksum (before ++ bytes16 w ++ after.take (headerLength before - (before.length + 2))) =
        0 := by
    have hsum := hv.sum
    rwa [hsame, take_append, hlen, take_of_length_le ((hlen w).trans_le hheader)] at hsum
  have hfits : length ≤ (before ++ bytes16 damaged ++ after).length := by
    rwa [length_append, hlen]
  rcases handleIpv4_run hfits s with ⟨hv, -⟩ | ⟨-, hrun⟩
  · refine absurd (word_mod_eq _ _ heven ?_ hword hdamaged (hverify _ hvalid) (hverify _ hv)) hne
    have hnibble := (before.getD 0 0 &&& 0x0F).toNat_lt
    rw [length_take]
    rw [headerLength] at hheader ⊢
    omega
  · exact hrun

/-- A packet without data that has lost its checksum. -/
theorem handleIpv4_damaged_zero : handleIpv4 .still (fun _ => pure none)
    ([0x45, 0, 0, 20, 0, 0, 0, 0, 0, 0] ++ bytes16 0 ++ replicate 8 0) 20
    (.initial ⟨0, 0, 0, 0, 0, 0⟩) = .ok ((), .initial ⟨0, 0, 0, 0, 0, 0⟩) :=
  have hvalid : ValidIpv4
      ([0x45, 0, 0, 20, 0, 0, 0, 0, 0, 0] ++ bytes16 47851 ++ replicate 8 0) 20 :=
    ⟨by decide, by decide, by decide, by decide, by decide, by decide⟩
  handleIpv4_damaged hvalid (by decide) rfl (by decide) (by decide) (by decide) (by decide)
    (by decide) _

end NasuaOS.Network
