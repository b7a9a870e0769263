import NasuaOS.Network.Stack

/-!
# Packets on the wire

What the driver sends, byte for byte, and what the receive path reads from it. A packet is its header
and its payload; the buffers it is built in are longer, and only its own bytes are sent.
-/

namespace NasuaOS.Network

open Base List

/-- The Ethernet header of an IPv4 packet. -/
def ethernetHeader (destination source : MACAddress) : Bytes :=
  destination.bytes ++ source.bytes ++ bytes16 0x0800

/-- The IPv4 header before the checksum. -/
def headerStart (id : Nat) (protocol : UInt8) (length : Nat) : Bytes :=
  [0x45, 0] ++ bytes16 (20 + length) ++ bytes16 id ++ bytes16 0x4000 ++ [64, protocol]

/-- The IPv4 header with a checksum. -/
def ipv4Header (id : Nat) (source destination : IPAddress) (protocol : UInt8) (length sum : Nat) :
    Bytes :=
  headerStart id protocol length ++ bytes16 sum ++ (source.bytes ++ destination.bytes)

/-- A packet, with the checksum of its header. -/
def ipv4Packet (id : Nat) (source destination : IPAddress) (protocol : UInt8)
    (payload : Bytes) : Bytes :=
  ipv4Header id source destination protocol payload.length
    (onesChecksum (ipv4Header id source destination protocol payload.length 0)) ++ payload

/-- The header that UDP and TCP put before a packet to compute its checksum. -/
def pseudoHeader (protocol : UInt8) (source destination : IPAddress) (length : Nat) : Bytes :=
  source.bytes ++ destination.bytes ++ [0, protocol] ++ bytes16 length

/-- The UDP header before the checksum. -/
def udpStart (sourcePort destinationPort length : Nat) : Bytes :=
  bytes16 sourcePort ++ bytes16 destinationPort ++ bytes16 (8 + length)

/-- A datagram with a checksum. -/
def datagram (sourcePort destinationPort sum : Nat) (payload : Bytes) : Bytes :=
  udpStart sourcePort destinationPort payload.length ++ bytes16 sum ++ payload

/-- The checksum of a datagram: one that is zero is sent as all ones. -/
def udpSum (source destination : IPAddress) (sourcePort destinationPort : Nat)
    (payload : Bytes) : Nat :=
  let sum := onesChecksum (pseudoHeader 17 source destination (8 + payload.length) ++
    datagram sourcePort destinationPort 0 payload)
  if sum = 0 then 0xFFFF else sum

/-- The TCP header before the checksum. -/
def tcpStart (localPort remotePort : Nat) (o : Tcp.Outgoing) : Bytes :=
  bytes16 localPort ++ bytes16 remotePort ++ bytes32 o.sequence ++ bytes32 o.acknowledgement ++
    [0x50, o.flags] ++ bytes16 o.window

/-- A segment with a checksum. -/
def tcpBytes (localPort remotePort : Nat) (o : Tcp.Outgoing) (sum : Nat) : Bytes :=
  tcpStart localPort remotePort o ++ bytes16 sum ++ ([0, 0] ++ o.payload)

/-- The checksum of a segment. -/
def tcpSum (source destination : IPAddress) (localPort remotePort : Nat) (o : Tcp.Outgoing) : Nat :=
  onesChecksum (pseudoHeader 6 source destination (20 + o.payload.length) ++
    tcpBytes localPort remotePort o 0)

/-- The frame of a packet: the headers, the payload and the rest of the buffer. -/
theorem ipv4Frame_eq (destinationMac macAddr : MACAddress) (id : Nat)
    (source destination : IPAddress) (protocol : UInt8) (payload rest : Bytes)
    (hmax : payload.length ≤ 1480) :
    ipv4Frame destinationMac macAddr id source destination protocol (payload ++ rest)
        payload.length = .ok (ethernetHeader destinationMac macAddr ++
        ipv4Packet id source destination protocol payload ++
        replicate (1480 - payload.length) 0) := by
  -- the headers, with zeros in place of the checksum
  have hheaders : putAll (replicate (14 + 20 + 1480) 0)
      [(0, destinationMac.bytes), (6, macAddr.bytes), (12, bytes16 0x0800), (14, [0x45]),
        (14 + 2, bytes16 (20 + payload.length)), (14 + 4, bytes16 id), (14 + 6, bytes16 0x4000),
        (14 + 8, [64]), (14 + 9, [protocol]), (14 + 12, source.bytes),
        (14 + 16, destination.bytes)] =
      .ok (ethernetHeader destinationMac macAddr ++
        (ipv4Header id source destination protocol payload.length 0 ++ replicate 1480 0)) :=
    (putAll_zeros 34 rfl (Nat.le_add_right 34 1480)).trans rfl
  have hsum : checksum (ipv4Header id source destination protocol payload.length 0 ++
      replicate 1480 0) 20 =
      .ok (onesChecksum (ipv4Header id source destination protocol payload.length 0)) :=
    checksum_append _ _
  rw [ipv4Packet]
  generalize onesChecksum (ipv4Header id source destination protocol payload.length 0) = sum
    at hsum ⊢
  have hstored : putBytes (ethernetHeader destinationMac macAddr ++
      (ipv4Header id source destination protocol payload.length 0 ++ replicate 1480 0)) (14 + 10)
      (bytes16 sum) = .ok (ethernetHeader destinationMac macAddr ++
        ipv4Header id source destination protocol payload.length sum ++ replicate 1480 0) := by
    have hstore : putBytes (ethernetHeader destinationMac macAddr ++
        headerStart id protocol payload.length ++
        (bytes16 0 ++ (source.bytes ++ (destination.bytes ++ replicate 1480 0)))) (14 + 10)
        (bytes16 sum) = .ok (ethernetHeader destinationMac macAddr ++
        headerStart id protocol payload.length ++
        (bytes16 sum ++ (source.bytes ++ (destination.bytes ++ replicate 1480 0)))) :=
      putBytes_append rfl
    exact hstore
  refine bind_eq_ok.mpr ⟨_, hheaders, bind_eq_ok.mpr ⟨sum, hsum, ?_⟩⟩
  refine bind_eq_ok.mpr ⟨payload, bytesAt_left payload rest, ?_⟩
  refine bind_eq_ok.mpr ⟨_, hstored, bind_eq_ok.mpr ⟨_, putBytes_zeros _ _ hmax, ?_⟩⟩
  rw [putAll, append_assoc (ethernetHeader _ _)]

/-- The checksum with the pseudo header. -/
theorem pseudoChecksum_eq (protocol : UInt8) (source destination : IPAddress)
    (packet rest : Bytes) (hmax : packet.length ≤ 1480) :
    pseudoChecksum protocol source destination (packet ++ rest) packet.length =
      .ok (onesChecksum (pseudoHeader protocol source destination packet.length ++ packet)) := by
  have hbuffer : putAll (replicate (12 + 1480) 0)
      [(0, source.bytes), (4, destination.bytes), (9, [protocol]), (10, bytes16 packet.length),
        (12, packet)] =
      .ok (pseudoHeader protocol source destination packet.length ++ packet ++
        replicate (1480 - packet.length) 0) := by
    refine (putAll_zeros (12 + packet.length) rfl (by omega)).trans ?_
    have hfields : layout 0 [(0, source.bytes), (4, destination.bytes), (9, [protocol]),
        (10, bytes16 packet.length), (12, packet)] =
        pseudoHeader protocol source destination packet.length ++ (packet ++ []) := rfl
    rw [Nat.add_sub_add_left, hfields, append_nil]
  have hall : (pseudoHeader protocol source destination packet.length ++ packet).length =
      12 + packet.length := length_append
  refine bind_eq_ok.mpr ⟨packet, bytesAt_left packet rest, bind_eq_ok.mpr ⟨_, hbuffer, ?_⟩⟩
  rw [← hall]
  exact checksum_append _ _

/-- The length of a datagram. -/
theorem length_datagram (sourcePort destinationPort sum : Nat) (payload : Bytes) :
    (datagram sourcePort destinationPort sum payload).length = 8 + payload.length :=
  length_append

/-- The packet of a datagram. -/
theorem udpPacket_eq (source destination : IPAddress) (sourcePort destinationPort : Nat)
    (payload rest : Bytes) (hmax : payload.length ≤ 1472) :
    udpPacket source destination sourcePort destinationPort (payload ++ rest) payload.length =
      .ok (datagram sourcePort destinationPort
        (udpSum source destination sourcePort destinationPort payload) payload ++
        replicate (1472 - payload.length) 0) := by
  have hfields : putAll (replicate (8 + 1472) 0)
      [(0, bytes16 sourcePort), (2, bytes16 destinationPort), (4, bytes16 (8 + payload.length)),
        (8, payload)] =
      .ok (datagram sourcePort destinationPort 0 payload ++
        replicate (1472 - payload.length) 0) := by
    refine (putAll_zeros (8 + payload.length) rfl (by omega)).trans ?_
    have hlayout : layout 0 [(0, bytes16 sourcePort), (2, bytes16 destinationPort),
        (4, bytes16 (8 + payload.length)), (8, payload)] =
        udpStart sourcePort destinationPort payload.length ++ bytes16 0 ++ (payload ++ []) := rfl
    rw [Nat.add_sub_add_left, hlayout, append_nil, datagram]
  have hlength := length_datagram sourcePort destinationPort 0 payload
  have hsum := pseudoChecksum_eq 17 source destination
    (datagram sourcePort destinationPort 0 payload) (replicate (1472 - payload.length) 0)
    (by omega)
  rw [hlength] at hsum
  refine bind_eq_ok.mpr ⟨payload, bytesAt_left payload rest, ?_⟩
  refine bind_eq_ok.mpr ⟨_, hfields, bind_eq_ok.mpr ⟨_, hsum, ?_⟩⟩
  have hstore : ∀ sum, putBytes (udpStart sourcePort destinationPort payload.length ++
      (bytes16 0 ++ (payload ++ replicate (1472 - payload.length) 0))) 6 (bytes16 sum) =
      .ok (udpStart sourcePort destinationPort payload.length ++
      (bytes16 sum ++ (payload ++ replicate (1472 - payload.length) 0))) := fun sum =>
    putBytes_append rfl
  exact hstore _

/-- The length of a segment. -/
theorem length_tcpBytes (localPort remotePort : Nat) (o : Tcp.Outgoing) (sum : Nat) :
    (tcpBytes localPort remotePort o sum).length = 20 + o.payload.length := by
  rw [tcpBytes, ← append_assoc]
  exact length_append

/-- The packet of a segment. -/
theorem tcpSegment_eq (source destination : IPAddress) (localPort remotePort : Nat)
    {o : Tcp.Outgoing} (hmax : o.payload.length ≤ 1460) :
    tcpSegment source destination localPort remotePort o =
      .ok (tcpBytes localPort remotePort o (tcpSum source destination localPort remotePort o) ++
        replicate (1460 - o.payload.length) 0) := by
  have hfields : putAll (replicate (20 + 1460) 0)
      [(0, bytes16 localPort), (2, bytes16 remotePort), (4, bytes32 o.sequence),
        (8, bytes32 o.acknowledgement), (12, [0x50]), (13, [o.flags]), (14, bytes16 o.window),
        (20, o.payload)] =
      .ok (tcpBytes localPort remotePort o 0 ++ replicate (1460 - o.payload.length) 0) := by
    refine (putAll_zeros (20 + o.payload.length) rfl (by omega)).trans ?_
    have hlayout : layout 0 [(0, bytes16 localPort), (2, bytes16 remotePort),
        (4, bytes32 o.sequence), (8, bytes32 o.acknowledgement), (12, [0x50]), (13, [o.flags]),
        (14, bytes16 o.window), (20, o.payload)] =
        tcpStart localPort remotePort o ++ bytes16 0 ++ ([0, 0] ++ (o.payload ++ [])) := rfl
    rw [Nat.add_sub_add_left, hlayout, append_nil, tcpBytes]
  have hlength := length_tcpBytes localPort remotePort o 0
  have hsum := pseudoChecksum_eq 6 source destination (tcpBytes localPort remotePort o 0)
    (replicate (1460 - o.payload.length) 0) (by omega)
  rw [hlength] at hsum
  refine bind_eq_ok.mpr ⟨_, hfields, bind_eq_ok.mpr ⟨_, hsum, ?_⟩⟩
  have hstore : ∀ sum, putBytes (tcpStart localPort remotePort o ++
      (bytes16 0 ++ ([0, 0] ++ (o.payload ++ replicate (1460 - o.payload.length) 0)))) 16
      (bytes16 sum) = .ok (tcpStart localPort remotePort o ++
      (bytes16 sum ++ ([0, 0] ++ (o.payload ++ replicate (1460 - o.payload.length) 0)))) :=
    fun sum => putBytes_append rfl
  exact hstore _

end NasuaOS.Network
