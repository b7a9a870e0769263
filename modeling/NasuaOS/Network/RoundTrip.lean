import NasuaOS.Network.Bounds
import NasuaOS.Network.Wire

/-!
# What is sent is received

`send_udp` and `send_segment` compute the checksum over the address that `source` refers to, then wait
for the hardware address of the next hop, and only then write the address into the IPv4 header. While
they wait, frames are handled. A packet is therefore received as it was sent exactly if the address
was the same at both times; it is, unless DHCP is looking for an address meanwhile.
-/

namespace NasuaOS.Network

open Base List

variable {line : Line} {resolve : Resolve}

/-! ### The packet -/

section Packet

variable (id : Nat) (source destination : IPAddress) (protocol : UInt8) (payload : Bytes)

private theorem length_ipv4Packet :
    (ipv4Packet id source destination protocol payload).length = 20 + payload.length :=
  length_append

private theorem headerLength_ipv4Packet :
    headerLength (ipv4Packet id source destination protocol payload) = 20 := by
  change ((0x45 : UInt8) &&& 0x0F).toNat * 4 = 20
  rfl

private theorem valid_ipv4Packet (hmax : payload.length ≤ 1480) :
    be16At (ipv4Packet id source destination protocol payload) 2 = 20 + payload.length ∧
      ValidIpv4 (ipv4Packet id source destination protocol payload) (20 + payload.length) := by
  have hlength := length_ipv4Packet id source destination protocol payload
  have hread : readBe16 (ipv4Packet id source destination protocol payload) 2 =
      .ok (20 + payload.length) := readBe16_bytes16 [0x45, 0] _ (by omega)
  have htotal := hread.symm.trans (readBe16_eq (by omega))
  rw [Except.ok.injEq] at htotal
  have hsum := onesChecksum_field (headerStart id protocol payload.length)
    (source.bytes ++ destination.bytes) (by simp [headerStart]) (by simp [headerStart])
  have hheader := headerLength_ipv4Packet id source destination protocol payload
  refine ⟨htotal.symm, ?_, hheader.ge, by omega, htotal.ge, ?_, ?_⟩
  · change (0x45 : UInt8) >>> 4 = 4
    rfl
  · rw [hheader]
    exact hsum
  · change (0x40 : UInt8).toNat * 256 + 0 &&& 0x3FFF = 0
    decide

private theorem handleIpv4_packet (hmax : payload.length ≤ 1480) {host : Net}
    (hhost : host.ipAddr = destination) :
    handleIpv4 line resolve (ipv4Packet id source destination protocol payload)
        (20 + payload.length) host =
      handleProtocol line resolve protocol source destination payload payload.length host := by
  obtain ⟨htotal, hvalid⟩ := valid_ipv4Packet id source destination protocol payload hmax
  have hlocal : isLocalDestination host.ipAddr destination = true := by
    rw [isLocalDestination, hhost]
    split
    · next hzero =>
      rw [hzero]
      rfl
    split
    · rfl
    · exact beq_self_eq_true destination
  rcases handleIpv4_run (length_ipv4Packet id source destination protocol payload).ge host with
    ⟨-, pending, -, hrun⟩ | ⟨hno, -⟩
  · have hsource : addressAt (ipv4Packet id source destination protocol payload) 12 = source := rfl
    have hdestination : addressAt (ipv4Packet id source destination protocol payload) 16 =
        destination := rfl
    rw [hrun, htotal, headerLength_ipv4Packet, hsource, hdestination, hlocal,
      Nat.add_sub_cancel_left]
    rfl
  · exact absurd hvalid hno

end Packet

variable {host s : Net} {i : Fin 8} {destinationPort : Nat} {handler : Handler}
  {destination : IPAddress}

private theorem handleFrameWith_packet (destinationMac macAddr : MACAddress) (id : Nat)
    (source destination : IPAddress) (protocol : UInt8) (payload : Bytes)
    (hmax : payload.length ≤ 1480) (hhost : host.ipAddr = destination) :
    handleFrameWith line resolve (ethernetHeader destinationMac macAddr ++
        ipv4Packet id source destination protocol payload) host =
      handleProtocol line resolve protocol source destination payload payload.length
        { host with rxPackets := host.rxPackets + 1 } := by
  have hlength : (ethernetHeader destinationMac macAddr ++
      ipv4Packet id source destination protocol payload).length - 14 = 20 + payload.length := by
    rw [length_append, length_ipv4Packet]
    exact Nat.add_sub_cancel_left 14 _
  rw [handleFrameWith, if_neg (by omega)]
  refine (run_modify _ _).trans ?_
  rw [run_read (rfl : readBe16 _ 12 = .ok 0x0800), if_neg (by decide), if_pos rfl, hlength]
  exact handleIpv4_packet id source destination protocol payload hmax hhost

/-! ### Datagrams -/

section Datagram

variable (source destination : IPAddress) (sourcePort destinationPort : Nat) (payload : Bytes)

private theorem udpSum_pos : 0 < udpSum source destination sourcePort destinationPort payload := by
  rw [udpSum]
  split
  · decide
  · next hne => exact Nat.pos_of_ne_zero hne

private theorem udpSum_lt :
    udpSum source destination sourcePort destinationPort payload < 2 ^ 16 := by
  rw [udpSum]
  split
  · decide
  · exact complement_lt _

private theorem udpSum_verifies (hmax : payload.length ≤ 1472) :
    onesChecksum (pseudoHeader 17 source destination (8 + payload.length) ++
      datagram sourcePort destinationPort
        (udpSum source destination sourcePort destinationPort payload) payload) = 0 := by
  have hfield := onesChecksum_field
    (pseudoHeader 17 source destination (8 + payload.length) ++
      udpStart sourcePort destinationPort payload.length) payload
    (by simp [pseudoHeader, udpStart]) (by simp [pseudoHeader, udpStart]; omega)
  have hones := onesChecksum_field_ones
    (pseudoHeader 17 source destination (8 + payload.length) ++
      udpStart sourcePort destinationPort payload.length) payload
    (by simp [pseudoHeader, udpStart]) (by simp [pseudoHeader, udpStart]; omega)
  rw [udpSum]
  split
  · next hzero => exact hones hzero
  · exact hfield

private theorem udpVerifies_datagram (hmax : payload.length ≤ 1472) :
    udpVerifies source destination (datagram sourcePort destinationPort
      (udpSum source destination sourcePort destinationPort payload) payload)
      (8 + payload.length) = .ok true := by
  have hsum := pseudoChecksum_eq 17 source destination (datagram sourcePort destinationPort
    (udpSum source destination sourcePort destinationPort payload) payload) []
    (by rw [length_datagram]; omega)
  have hread := readBe16_bytes16 (udpStart sourcePort destinationPort payload.length) payload
    (udpSum_lt source destination sourcePort destinationPort payload)
  have hpos := udpSum_pos source destination sourcePort destinationPort payload
  rw [length_datagram, append_nil, udpSum_verifies _ _ _ _ _ hmax] at hsum
  rw [← append_assoc] at hread
  refine bind_eq_ok.mpr ⟨_, hread, ?_⟩
  rw [if_neg (by omega)]
  exact bind_eq_ok.mpr ⟨0, hsum, rfl⟩

end Datagram

/-! ### Handlers -/

private theorem handlers_kept {x : NetM Unit}
    (hkeeps : Keeps False (fun _ _ _ h => h = (s.bindings, s.calls)) x) :
    ∃ t, x s = .ok ((), t) ∧ t.bindings = s.bindings ∧ t.calls = s.calls := by
  obtain ⟨⟨_, t⟩, ht, hsame⟩ := (hkeeps.yields s rfl).returns
  exact ⟨t, ht, congrArg Prod.fst hsame, congrArg Prod.snd hsame⟩

private theorem callHandler_run (handler : Handler) (source : IPAddress) (sourcePort : Nat)
    (payload : Bytes) (hmax : payload.length ≤ 1472) (s : Net) :
    ∃ t, callHandler handler source sourcePort payload payload.length s = .ok ((), t) ∧
      t.bindings = s.bindings ∧ t.calls = s.calls ++ [⟨handler, source, sourcePort, payload⟩] := by
  have hload : bytesAt payload 0 payload.length = .ok payload := by
    have hleft := bytesAt_left payload []
    rwa [append_nil] at hleft
  unfold callHandler
  rw [run_read hload]
  cases handler with
  | receiveDnsResponse =>
    exact handlers_kept (receiveDnsResponse_keeps source sourcePort (by omega) le_rfl)
  | other id => exact ⟨_, rfl, rfl, rfl⟩

private theorem callBindings_run (hslot : host.bindings.slot i = ⟨destinationPort, some handler⟩)
    (hport : destinationPort ≠ 0) (source : IPAddress) (sourcePort : Nat) (payload : Bytes)
    (hmax : payload.length ≤ 1472) : ∃ t, (finRange 8).forM
        (callBinding destinationPort source sourcePort payload payload.length) host = .ok ((), t) ∧
      t.calls = host.calls ++ [⟨handler, source, sourcePort, payload⟩] := by
  -- no other binding has the port
  have hother : ∀ s : Net, s.bindings = host.bindings → ∀ j, j ≠ i →
      callBinding destinationPort source sourcePort payload payload.length j s = .ok ((), s) := by
    intro s hs j hj
    have hne : (host.bindings.slot j).port ≠ destinationPort := by
      intro heq
      have hi : (host.bindings.slot i).port = destinationPort := by rw [hslot]
      exact hj (host.bindings.distinct j i (heq.trans hi.symm) (heq ▸ hport))
    rw [callBinding, run_get, hs]
    cases (host.bindings.slot j).handler with
    | none => rfl
    | some other => simp only [if_neg hne]; rfl
  obtain ⟨t, hcall, hbindings, hcalls⟩ :=
    callHandler_run handler source sourcePort payload hmax host
  refine ⟨t, ?_, hcalls⟩
  refine run_forM_single (nodup_finRange 8) (mem_finRange i) (hother host rfl) ?_
    (hother t hbindings)
  rw [callBinding, run_get, hslot]
  simp only [if_true]
  exact hcall

private theorem handleUdp_run (hslot : host.bindings.slot i = ⟨destinationPort, some handler⟩)
    (hport : destinationPort ≠ 0) (hdestination : destinationPort < 2 ^ 16) {sourcePort : Nat}
    (hsource : sourcePort < 2 ^ 16) (source destination : IPAddress) {sum : Nat}
    {payload : Bytes} (hmax : payload.length ≤ 1472) {verifies : Bool}
    (hverifies : udpVerifies source destination (datagram sourcePort destinationPort sum payload)
      (8 + payload.length) = .ok verifies) : ∃ t, handleUdp line resolve source destination
        (datagram sourcePort destinationPort sum payload) (8 + payload.length) host = .ok ((), t) ∧
      t.calls = if verifies then host.calls ++ [⟨handler, source, sourcePort, payload⟩]
        else host.calls := by
  have hlength : readBe16 (datagram sourcePort destinationPort sum payload) 4 =
      .ok (8 + payload.length) :=
    readBe16_bytes16 (bytes16 sourcePort ++ bytes16 destinationPort) _ (by omega)
  have hfrom : readBe16 (datagram sourcePort destinationPort sum payload) 0 = .ok sourcePort :=
    readBe16_bytes16 [] _ hsource
  have hto : readBe16 (datagram sourcePort destinationPort sum payload) 2 = .ok destinationPort :=
    readBe16_bytes16 (bytes16 sourcePort) _ hdestination
  rw [handleUdp, if_neg (by omega), run_read hlength, if_neg (by omega), run_read hverifies]
  cases verifies with
  | false => exact ⟨host, rfl, rfl⟩
  | true =>
    rw [if_pos rfl, run_read hfrom, run_read hto]
    simp only [Nat.add_sub_cancel_left]
    rw [show (datagram sourcePort destinationPort sum payload).drop 8 = payload from rfl]
    by_cases hdhcp : sourcePort = 67 ∧ destinationPort = 68
    · -- a DHCP reply is first handled as such, which leaves the handlers alone
      have hkeeps : Keeps False (fun _ _ _ h => h = (host.bindings, host.calls))
          (dhcpReceive line resolve payload payload.length) :=
        dhcpReceive_keeps (fun _ _ _ _ _ _ h _ => h) (by omega) le_rfl
      obtain ⟨t, ht, hbindings, hcalls⟩ := handlers_kept hkeeps
      rw [if_pos hdhcp, run_bind ht, ← hcalls]
      exact callBindings_run (hbindings ▸ hslot) hport source sourcePort payload hmax
    · rw [if_neg hdhcp]
      exact callBindings_run hslot hport source sourcePort payload hmax

/-! ### Segments -/

section Segment

variable (source destination : IPAddress) (localPort remotePort : Nat) (o : Tcp.Outgoing)

private theorem tcpSum_verifies (hmax : o.payload.length ≤ 1460) :
    onesChecksum (pseudoHeader 6 source destination (20 + o.payload.length) ++
      tcpBytes localPort remotePort o (tcpSum source destination localPort remotePort o)) = 0 := by
  have hfield := onesChecksum_field
    (pseudoHeader 6 source destination (20 + o.payload.length) ++ tcpStart localPort remotePort o)
    ([0, 0] ++ o.payload) (by simp [pseudoHeader, tcpStart])
    (by simp [pseudoHeader, tcpStart]; omega)
  rw [tcpSum]
  exact hfield

variable {source destination localPort remotePort o}

private theorem readSegment_tcpBytes (hmax : o.payload.length ≤ 1460) (hlocal : localPort < 2 ^ 16)
    (hremote : remotePort < 2 ^ 16) {peer : Net} (hactive : peer.client.active = true)
    (haddress : peer.remoteAddress = source) (hown : peer.ipAddr = destination)
    (hfrom : peer.remotePort = localPort) (hto : peer.localPort = remotePort) :
    readSegment peer source destination
        (tcpBytes localPort remotePort o (tcpSum source destination localPort remotePort o))
        (20 + o.payload.length) =
      .ok (some ⟨o.flags, o.sequence, o.acknowledgement, Tcp.tcpMaxPayload, o.payload⟩) := by
  have hsum := pseudoChecksum_eq 6 source destination
    (tcpBytes localPort remotePort o (tcpSum source destination localPort remotePort o)) []
    (by rw [length_tcpBytes]; omega)
  rw [length_tcpBytes, append_nil, tcpSum_verifies _ _ _ _ _ hmax] at hsum
  generalize tcpSum source destination localPort remotePort o = sum at hsum ⊢
  have hsourcePort : readBe16 (tcpBytes localPort remotePort o sum) 0 = .ok localPort :=
    readBe16_bytes16 [] _ hlocal
  have hdestinationPort : readBe16 (tcpBytes localPort remotePort o sum) 2 = .ok remotePort :=
    readBe16_bytes16 (bytes16 localPort) _ hremote
  have hsequence : readBe32 (tcpBytes localPort remotePort o sum) 4 = .ok o.sequence :=
    readBe32_bytes32 (bytes16 localPort ++ bytes16 remotePort) _ _
  have hacknowledgement : readBe32 (tcpBytes localPort remotePort o sum) 8 =
      .ok o.acknowledgement :=
    readBe32_bytes32 (bytes16 localPort ++ bytes16 remotePort ++ bytes32 o.sequence) _ _
  have hpayload : bytesAt (tcpBytes localPort remotePort o sum) 20
      (20 + o.payload.length - 20) = .ok o.payload := by
    have hload := bytesAt_append (tcpStart localPort remotePort o ++ bytes16 sum ++ [0, 0])
      o.payload []
    rw [append_nil, append_assoc] at hload
    rw [Nat.add_sub_cancel_left, tcpBytes]
    exact hload
  have hchecks : (!peer.client.active || decide (20 + o.payload.length < 20) ||
      !(source == peer.remoteAddress) || !(destination == peer.ipAddr)) = false := by
    simp [hactive, haddress, hown]
  rw [readSegment, hchecks]
  refine bind_eq_ok.mpr ⟨localPort, hsourcePort, bind_eq_ok.mpr ⟨remotePort, hdestinationPort, ?_⟩⟩
  rw [if_neg (by simp [hfrom, hto])]
  refine bind_eq_ok.mpr ⟨0x50, rfl, ?_⟩
  simp only [show ((0x50 : UInt8) >>> 4).toNat * 4 = 20 from rfl]
  rw [if_neg (by omega)]
  refine bind_eq_ok.mpr ⟨0, hsum, ?_⟩
  rw [if_neg (by decide)]
  refine bind_eq_ok.mpr ⟨o.flags, rfl, bind_eq_ok.mpr ⟨o.sequence, hsequence, ?_⟩⟩
  refine bind_eq_ok.mpr ⟨o.acknowledgement, hacknowledgement, ?_⟩
  exact bind_eq_ok.mpr ⟨Tcp.tcpMaxPayload, rfl, bind_eq_ok.mpr ⟨o.payload, hpayload, rfl⟩⟩

end Segment

/-! ### Sending -/

private theorem sendIpv4_run {source : Source} {t : Net} {mac : MACAddress}
    (hmac : destinationMac resolve source destination s = .ok (some mac, t))
    (havailable : t.available = true) (haccepts : line.accepts t.moment = true) (protocol : UInt8)
    (payload rest : Bytes) (hmax : payload.length ≤ 1480) :
    ∃ s', sendIpv4 line resolve source destination protocol (payload ++ rest) payload.length s =
        .ok (true, s') ∧ s'.sent = t.sent ++ [ethernetHeader mac t.macAddr ++
        ipv4Packet t.nextIpId (source.read t) destination protocol payload] := by
  have hframe := ipv4Frame_eq mac t.macAddr t.nextIpId (source.read t) destination protocol payload
    rest hmax
  have hlength : 14 + 20 + payload.length = (ethernetHeader mac t.macAddr ++
      ipv4Packet t.nextIpId (source.read t) destination protocol payload).length := by
    rw [length_append, length_ipv4Packet, Nat.add_assoc]
    rfl
  have hsend : ∀ u : Net, u.available = true → line.accepts u.moment = true → ∀ frame rest,
      ∃ s', sendFrame line (frame ++ rest) frame.length u = .ok (true, s') ∧
        s'.sent = u.sent ++ [frame] := by
    intro u hu hm frame rest
    rw [sendFrame, run_get]
    refine ⟨{ u with
      moment := u.moment + 1, txPackets := u.txPackets + 1, sent := u.sent ++ [frame] }, ?_, rfl⟩
    rw [if_neg (by simp [hu]), run_read (bytesAt_left frame rest), if_pos hm]
    rfl
  rw [sendIpv4, if_neg (by omega), run_bind hmac]
  change ∃ s', (get >>= _ : NetM Bool) t = _ ∧ _
  rw [run_get, run_set, run_read hframe, hlength]
  exact hsend { t with nextIpId := (t.nextIpId + 1) % 2 ^ 16 } havailable haccepts _ _

/-- The host calls a handler once and no other. -/
def Delivers (line : Line) (depth : Nat) (frame : Bytes) (host : Net) (call : Call) : Prop :=
  ∃ t, handleFrame line (depth + 1) frame host = .ok ((), t) ∧ t.calls = host.calls ++ [call]

/-- The other end of a connection. -/
structure Mirrors (s peer : Net) : Prop where
  active : peer.client.active = true
  remoteAddress : peer.remoteAddress = s.ipAddr
  ipAddr : peer.ipAddr = s.remoteAddress
  remotePort : peer.remotePort = s.localPort
  localPort : peer.localPort = s.remotePort

/-- A frame passes the checks of `handle_tcp` as a segment, and is handled as that. -/
structure Accepts (peer : Net) (frame : Bytes) (segment : Tcp.Segment) : Prop where
  checks : ∃ source destination, readAddress frame 26 = .ok source ∧
    readAddress frame 30 = .ok destination ∧
    readSegment peer source destination (frame.drop 34) (frame.length - 34) = .ok (some segment)
  handled : ∀ line depth, handleFrame line (depth + 1) frame peer =
    receiveSegment line (resolveAddress line depth) segment
      { peer with rxPackets := peer.rxPackets + 1 }

private theorem delivers_datagram (mac macAddr : MACAddress) (id : Nat) (source source' : IPAddress)
    {sourcePort : Nat} (hsource : sourcePort < 2 ^ 16) (hport : destinationPort ≠ 0)
    (hdestination : destinationPort < 2 ^ 16) {payload : Bytes} (hmax : payload.length ≤ 1472)
    (depth : Nat) (hhost : host.ipAddr = destination)
    (hslot : host.bindings.slot i = ⟨destinationPort, some handler⟩) :
    Delivers line depth (ethernetHeader mac macAddr ++ ipv4Packet id source' destination 17
      (datagram sourcePort destinationPort
        (udpSum source destination sourcePort destinationPort payload) payload)) host
      ⟨handler, source, sourcePort, payload⟩ ↔ source' = source := by
  have hlength := length_datagram sourcePort destinationPort
    (udpSum source destination sourcePort destinationPort payload) payload
  obtain ⟨verifies, hverifies, -⟩ : ∃ verifies, udpVerifies source' destination (datagram sourcePort
      destinationPort (udpSum source destination sourcePort destinationPort payload) payload)
      (8 + payload.length) = .ok verifies ∧ True :=
    (udpVerifies_yields (Nat.le_add_right ..) (by omega) (Nat.le_of_eq hlength.symm)).returns
  obtain ⟨t, hrun, hcalls⟩ : ∃ t, handleFrame line (depth + 1) (ethernetHeader mac macAddr ++
      ipv4Packet id source' destination 17 (datagram sourcePort destinationPort
        (udpSum source destination sourcePort destinationPort payload) payload)) host =
      .ok ((), t) ∧ t.calls = if verifies then host.calls ++ [⟨handler, source', sourcePort, payload⟩]
        else host.calls := by
    rw [handleFrame, handleFrameWith_packet _ _ _ _ _ _ _ (by omega) hhost, handleProtocol,
      if_pos rfl,
      hlength]
    have hslot : ({ host with rxPackets := host.rxPackets + 1 } : Net).bindings.slot i =
      ⟨destinationPort, some handler⟩ := hslot
    exact handleUdp_run hslot hport hdestination hsource source' destination hmax hverifies
  constructor
  · rintro ⟨t', ht', hcalls'⟩
    have hsame : t' = t := congrArg Prod.snd (Except.ok.inj (ht'.symm.trans hrun))
    rw [hsame, hcalls] at hcalls'
    cases verifies with
    | false => simp at hcalls'
    | true =>
      have hcall := append_cancel_left hcalls'
      simp only [cons.injEq, Call.mk.injEq] at hcall
      exact hcall.1.2.1
  · rintro rfl
    refine ⟨t, hrun, ?_⟩
    rw [udpVerifies_datagram _ _ _ _ _ hmax] at hverifies
    cases hverifies
    exact hcalls

private theorem accepts_segment (mac macAddr : MACAddress) (id : Nat) (source' : IPAddress) {peer : Net}
    {o : Tcp.Outgoing} (hmax : o.payload.length ≤ 1460) (hlocal : s.localPort < 2 ^ 16)
    (hremote : s.remotePort < 2 ^ 16) (hpeer : Mirrors s peer) :
    Accepts peer (ethernetHeader mac macAddr ++ ipv4Packet id source' s.remoteAddress 6
      (tcpBytes s.localPort s.remotePort o
        (tcpSum s.ipAddr s.remoteAddress s.localPort s.remotePort o)))
      ⟨o.flags, o.sequence, o.acknowledgement, Tcp.tcpMaxPayload, o.payload⟩ ↔
      source' = s.ipAddr := by
  have hlength := length_tcpBytes s.localPort s.remotePort o
    (tcpSum s.ipAddr s.remoteAddress s.localPort s.remotePort o)
  constructor
  · rintro ⟨⟨source, destination, hsource, -, hread⟩, -⟩
    have hsource : source = source' := (Except.ok.inj hsource).symm
    subst hsource
    rw [readSegment] at hread
    split at hread
    · cases hread
    · next hchecks =>
      simp only [Bool.or_eq_true, Bool.not_eq_true', not_or, Bool.not_eq_false, beq_iff_eq] at hchecks
      exact hchecks.1.2.trans hpeer.remoteAddress
  · rintro rfl
    have hread := readSegment_tcpBytes hmax hlocal hremote hpeer.active hpeer.remoteAddress
      hpeer.ipAddr hpeer.remotePort hpeer.localPort
    refine ⟨⟨s.ipAddr, s.remoteAddress, rfl, rfl, ?_⟩, ?_⟩
    · have hrest : 14 + (20 + (20 + o.payload.length)) - 34 = 20 + o.payload.length := by omega
      rw [length_append, length_ipv4Packet, hlength,
        show (ethernetHeader mac macAddr).length = 14 from rfl, hrest]
      exact hread
    · intro line depth
      rw [handleFrame, handleFrameWith_packet _ _ _ _ _ _ _ (by omega) hpeer.ipAddr, handleProtocol,
        if_neg (by decide), if_pos rfl, hlength, handleTcp, run_get]
      exact run_read hread _

/-! ### The address while a packet waits -/

/-- DHCP does not look for an address, and the host has this one. -/
def Known.idle (address : IPAddress) : Known := fun c a d _ =>
  (d.state ≠ .discovering ∧ d.state ≠ .requesting) ∧ a = address ∧ (c.active = true → Tcp.Room c)

private theorem idle_safe (address : IPAddress) : Safe (.idle address) where
  segment c a d b seg h hactive :=
    (room_safe.segment c a d b seg h.2.2 hactive).mono fun _ hroom => ⟨h.1, h.2.1, hroom⟩
  resume c a d b point sent h hactive :=
    (room_safe.resume c a d b point sent h.2.2 hactive).mono fun _ hroom => ⟨h.1, h.2.1, hroom⟩
  dhcp c a d b a' d' h hstate := by
    rcases hstate with hstate | hstate
    · exact absurd hstate h.1.1
    · exact absurd hstate h.1.2
  call c a d b calls call h := h

private theorem source_idle {source : Source} {t : Net} {mac : MACAddress} {depth : Nat}
    (hline : line.Delivers) (hclient : s.client.active = true → ReachableClient s.client)
    (hidle : ¬ Looking s)
    (hmac : destinationMac (resolveAddress line depth) source destination s = .ok (some mac, t)) :
    source.read t = source.read s := by
  cases source with
  | value address => rfl
  | ipAddr =>
    rw [Looking, not_or] at hidle
    have hkeeps : Keeps True (Known.with (.idle s.ipAddr) s.client.active)
        (destinationMac (resolveAddress line depth) .ipAddr destination) := by
      refine destinationMac_keeps fun address => resolveArp_keeps ?_ depth address
      refine pollWith_keeps fun k frame hframe => ?_
      exact handleFrame_keeps (idle_safe s.ipAddr) hline depth _ (hline k frame hframe)
    have hroom : s.client.active = true → Tcp.Room s.client := fun hactive => (hclient hactive).room
    exact ((hkeeps.yields s ⟨⟨hidle, rfl, hroom⟩, rfl⟩).result hmac).1.2.1

/-- Every datagram and every segment whose next hop is resolved is sent. A host with a handler for
the port, or the other end of the connection, receives it as it was sent exactly if the source refers
to the same address when the next hop has been resolved as before. It does if it is an address of the
caller, if the packet goes to everyone, and if DHCP does not look for an address. -/
theorem sent_received {line : Line} {depth : Nat} {source : Source} {destination : IPAddress}
    {s t : Net} {mac : MACAddress}
    (hmac : destinationMac (resolveAddress line depth) source destination s = .ok (some mac, t))
    (havailable : t.available = true) (haccepts : line.accepts t.moment = true) :
    (∀ sourcePort destinationPort payload rest, 0 < sourcePort → sourcePort < 2 ^ 16 →
      0 < destinationPort → destinationPort < 2 ^ 16 → payload.length ≤ 1472 →
      ∃ s' frame, sendUdp line (resolveAddress line depth) source destination sourcePort
          destinationPort (payload ++ rest) payload.length s = .ok (true, s') ∧
        s'.sent = t.sent ++ [frame] ∧
        ∀ line' depth' host i handler, host.ipAddr = destination →
          host.bindings.slot i = ⟨destinationPort, some handler⟩ →
          (Delivers line' depth' frame host ⟨handler, source.read s, sourcePort, payload⟩ ↔
            source.read t = source.read s)) ∧
    (∀ o : Tcp.Outgoing, source = .ipAddr → destination = s.remoteAddress →
      s.localPort < 2 ^ 16 → s.remotePort < 2 ^ 16 → o.payload.length ≤ 1460 →
      ∃ s' frame, sendSegment line (resolveAddress line depth) o s = .ok (true, s') ∧
        s'.sent = t.sent ++ [frame] ∧
        ∀ peer, Mirrors s peer →
          (Accepts peer frame
              ⟨o.flags, o.sequence, o.acknowledgement, Tcp.tcpMaxPayload, o.payload⟩ ↔
            source.read t = source.read s)) ∧
    (((∃ address, source = .value address) ∨ isBroadcast destination = true ∨
        (line.Delivers ∧ (s.client.active = true → ReachableClient s.client) ∧ ¬ Looking s)) →
      source.read t = source.read s) := by
  refine ⟨?_, ?_, ?_⟩
  · intro sourcePort destinationPort payload rest hsource hsourceMax hport hportMax hmax
    have hlength := length_datagram sourcePort destinationPort
      (udpSum (source.read s) destination sourcePort destinationPort payload) payload
    obtain ⟨s', hsend, hsent⟩ := sendIpv4_run hmac havailable haccepts 17
      (datagram sourcePort destinationPort
        (udpSum (source.read s) destination sourcePort destinationPort payload) payload)
      (replicate (1472 - payload.length) 0) (by omega)
    refine ⟨s', _, ?_, hsent, ?_⟩
    · rw [sendUdp, if_neg (by omega), run_get, run_read (udpPacket_eq _ _ _ _ _ _ hmax), ← hlength]
      exact hsend
    · intro line' depth' host i handler hhost hslot
      exact delivers_datagram mac t.macAddr t.nextIpId (source.read s) (source.read t) hsourceMax
        (Nat.ne_of_gt hport) hportMax hmax depth' hhost hslot
  · rintro o rfl rfl hlocal hremote hmax
    have hlength := length_tcpBytes s.localPort s.remotePort o
      (tcpSum s.ipAddr s.remoteAddress s.localPort s.remotePort o)
    have hfits : ¬ Tcp.tcpMaxPayload < o.payload.length := Nat.not_lt.mpr hmax
    obtain ⟨s', hsend, hsent⟩ := sendIpv4_run hmac havailable haccepts 6
      (tcpBytes s.localPort s.remotePort o
        (tcpSum s.ipAddr s.remoteAddress s.localPort s.remotePort o))
      (replicate (1460 - o.payload.length) 0) (by omega)
    refine ⟨s', _, ?_, hsent, ?_⟩
    · rw [sendSegment, if_neg hfits, run_get, run_read (tcpSegment_eq _ _ _ _ hmax), ← hlength]
      exact hsend
    · intro peer hpeer
      exact accepts_segment mac t.macAddr t.nextIpId t.ipAddr hmax hlocal hremote hpeer
  · rintro (⟨address, rfl⟩ | hbroadcast | ⟨hline, hclient, hidle⟩)
    · rfl
    · rw [destinationMac, run_get, if_pos hbroadcast] at hmac
      exact congrArg (source.read ·.2) (Except.ok.inj hmac).symm
    · exact source_idle hline hclient hidle hmac

/-- A neighbour with a handler for a port. -/
def neighbour : Net :=
  { Net.initial ⟨2, 0, 0, 0, 0, 2⟩ with
    ipAddr := ⟨10, 0, 0, 2⟩
    bindings := (Net.initial ⟨2, 0, 0, 0, 0, 2⟩).bindings.bindUdpPort 9 (some (.other 0)) |>.2 }

/-- A datagram to a neighbour whose hardware address is known. -/
theorem sent_received_neighbour :
    ∃ s' frame, sendUdp .still (resolveAddress .still 1) .ipAddr ⟨10, 0, 0, 2⟩ 7 9 [1, 2, 3] 3
        waiting = .ok (true, s') ∧ s'.sent = [frame] ∧
      ∀ line depth, Delivers line depth frame neighbour
        ⟨.other 0, ⟨10, 0, 0, 5⟩, 7, [1, 2, 3]⟩ := by
  obtain ⟨hudp, -, -⟩ := @sent_received .still 1 .ipAddr ⟨10, 0, 0, 2⟩ waiting
    { waiting with moment := 1 } ⟨2, 0, 0, 0, 0, 2⟩ rfl rfl rfl
  obtain ⟨s', frame, hsend, hsent, hreceived⟩ := hudp 7 9 [1, 2, 3] [] (by decide) (by decide)
    (by decide) (by decide) (by decide)
  exact ⟨s', frame, hsend, hsent, fun line depth =>
    (hreceived line depth neighbour 0 (.other 0) rfl rfl).mpr rfl⟩

/-- A host that was given an address by hand while DHCP waits for the acknowledgement of another. -/
def leasing : Net :=
  { Net.initial ⟨2, 0, 0, 0, 0, 1⟩ with
    ipAddr := ⟨10, 0, 0, 5⟩
    netmask := ⟨255, 255, 255, 0⟩
    dhcp := ⟨.requesting, 7, 1, 0, ⟨10, 0, 0, 9⟩, ⟨10, 0, 0, 1⟩, .zero, .zero, .zero⟩ }

/-- The acknowledgement. -/
def acknowledgement : Bytes :=
  [2, 1, 6, 0, 0, 0, 0, 7] ++ replicate 20 0 ++ [2, 0, 0, 0, 0, 1] ++ replicate 202 0 ++
    [99, 130, 83, 99, 53, 1, 5, 255]

/-- It arrives while the host waits for the hardware address of a neighbour, and then the address. -/
def leaseLine : Line where
  clock _ := 0
  accepts _ := true
  arrivals _ :=
    [ethernetHeader broadcastMac ⟨2, 0, 0, 0, 0, 9⟩ ++
        ipv4Packet 1 ⟨10, 0, 0, 1⟩ ⟨255, 255, 255, 255⟩ 17 (datagram 67 68 0 acknowledgement),
      [2, 0, 0, 0, 0, 1, 2, 0, 0, 0, 0, 2, 8, 6, 0, 1, 8, 0, 6, 4, 0, 2,
        2, 0, 0, 0, 0, 2, 10, 0, 0, 2, 2, 0, 0, 0, 0, 1, 10, 0, 0, 5]]

/-- The calls at the neighbour after the last frame that a host sent. -/
def callsAfter (s : Net) : Option (List Call) :=
  match s.sent.getLast? with
  | none => none
  | some frame =>
    match handleFrame .still 1 frame neighbour with
    | .ok (_, t) => some t.calls
    | .error _ => none

/-- The datagram leaves with the new address and the checksum of the old one, and is dropped. -/
theorem lease_loses_datagram :
    (match sendUdp leaseLine (resolveAddress leaseLine 2) .ipAddr ⟨10, 0, 0, 2⟩ 7 9 [1, 2, 3] 3
      leasing with
    | .ok (true, s) => callsAfter s
    | _ => none) = some [] := by
  decide +kernel

end NasuaOS.Network
