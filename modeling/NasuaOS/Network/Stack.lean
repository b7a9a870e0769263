import NasuaOS.Network.Dhcp
import NasuaOS.Network.Dns

/-!
# The receive path

`src/resources/drivers/network/functions/network.cpp:41–57`, `arp.cpp:110–153`, `ipv4.cpp:167–230`,
`udp.cpp:99–147`, `tcp.cpp:76–146,403–522`. A packet is the rest of the frame from its first byte on;
`length` is what the handler is told, which is not more. The handlers of TCP are those of
`Tcp.Client`; between two parts of them a segment is sent.
-/

namespace NasuaOS.Network

open Base

variable (line : Line) (resolve : Resolve)

/-- `handle_arp`. -/
def handleArp (packet : Bytes) (length : Nat) : NetM Unit := do
  if length < 28 then return ()
  else
    let hardware ← readBe16 packet 0
    let protocol ← readBe16 packet 2
    let hardwareSize ← byteAt packet 4
    let protocolSize ← byteAt packet 5
    if hardware ≠ 1 ∨ protocol ≠ 0x0800 ∨ hardwareSize ≠ 6 ∨ protocolSize ≠ 4 then return ()
    else
      let operation ← readBe16 packet 6
      if operation ≠ 1 ∧ operation ≠ 2 then return ()
      else
        let senderMac ← readMac packet 8
        let senderIp ← readAddress packet 14
        cacheAddress line senderIp senderMac
        let target ← readAddress packet 24
        let s ← get
        if operation = 1 ∧ s.ipAddr.b0 ≠ 0 ∧ s.ipAddr = target then
          discard <| sendArp line senderMac 2 senderMac senderIp
        else return ()

/-- The test of the checksum, which a packet may leave out. `udp.cpp:110–130`. -/
def udpVerifies (source destination : IPAddress) (packet : Bytes) (udpLength : Nat) :
    Reading Bool := do
  let sum ← readBe16 packet 6
  if sum = 0 then return true
  else return (← pseudoChecksum 17 source destination packet udpLength) == 0

/-- Call a handler. What the handlers of other modules do is not part of the driver. -/
def callHandler (handler : Handler) (source : IPAddress) (sourcePort : Nat) (payload : Bytes)
    (length : Nat) : NetM Unit := do
  let bytes ← bytesAt payload 0 length
  modify fun s => { s with calls := s.calls ++ [⟨handler, source, sourcePort, bytes⟩] }
  match handler with
  | .receiveDnsResponse => receiveDnsResponse source sourcePort payload length
  | .other _ => return ()

/-- One round of the loop over the bindings. `udp.cpp:139–145`. -/
def callBinding (destinationPort : Nat) (source : IPAddress) (sourcePort : Nat)
    (payload : Bytes) (length : Nat) (i : Fin 8) : NetM Unit := do
  let s ← get
  match (s.bindings.slot i).handler with
  | some handler =>
    if (s.bindings.slot i).port = destinationPort then
      callHandler handler source sourcePort payload length
    else return ()
  | none => return ()

/-- `handle_udp`. -/
def handleUdp (source destination : IPAddress) (packet : Bytes) (length : Nat) : NetM Unit := do
  if length < 8 then return ()
  else
    let udpLength ← readBe16 packet 4
    if udpLength < 8 ∨ length < udpLength then return ()
    else if ← udpVerifies source destination packet udpLength then
      let sourcePort ← readBe16 packet 0
      let destinationPort ← readBe16 packet 2
      let payload := packet.drop 8
      if sourcePort = 67 ∧ destinationPort = 68 then
        dhcpReceive line resolve payload (udpLength - 8)
      (List.finRange 8).forM
        (callBinding destinationPort source sourcePort payload (udpLength - 8))
    else return ()

/-- The segment of `send_segment`. `tcp.cpp:100–112`. The acknowledgement number and the window are
those of `Tcp.outgoing`. -/
def tcpSegment (source destination : IPAddress) (localPort remotePort : Nat) (o : Tcp.Outgoing) :
    Reading Bytes := do
  let segment ← putAll (List.replicate (20 + 1460) 0)
    [(0, bytes16 localPort), (2, bytes16 remotePort), (4, bytes32 o.sequence),
      (8, bytes32 o.acknowledgement),
      (12, [0x50]),
      (13, [o.flags]),
      (14, bytes16 o.window),
      (20, o.payload)]
  let sum ← pseudoChecksum 6 source destination segment (20 + o.payload.length)
  putBytes segment 16 (bytes16 sum)

/-- `send_segment`. -/
def sendSegment (o : Tcp.Outgoing) : NetM Bool := do
  if Tcp.tcpMaxPayload < o.payload.length then return false
  else
    let s ← get
    let segment ← tcpSegment s.ipAddr s.remoteAddress s.localPort s.remotePort o
    sendIpv4 line resolve .ipAddr s.remoteAddress 6 segment (20 + o.payload.length)

/-- The segment size that one option leaves. `tcp.cpp:135–142`. -/
def takeMss (options : Bytes) (index : Nat) (kind optionLength : UInt8) (mss : Nat) :
    Reading Nat := do
  if kind = 2 ∧ optionLength = 4 then
    let advertised ← readBe16 options (index + 2)
    return if 536 ≤ advertised ∧ advertised < mss then advertised else mss
  else return mss

/-- The loop of `peer_mss_from_options`. -/
def mssLoop (options : Bytes) (length : Nat) : Nat → Nat → Nat → Reading Nat
  | 0, _, _ => .error .outOfFuel
  | fuel + 1, index, mss =>
    if index < length then do
      let kind ← byteAt options index
      if kind = 0 then return mss
      else if kind = 1 then mssLoop options length fuel (index + 1) mss
      else if length ≤ index + 1 then return mss
      else
        let optionLength ← byteAt options (index + 1)
        if optionLength < 2 ∨ length - index < optionLength.toNat then return mss
        else
          let mss ← takeMss options index kind optionLength mss
          mssLoop options length fuel ((index + optionLength.toNat) % 2 ^ 16) mss
    else return mss

/-- `peer_mss_from_options`. Each round of its loop moves the index on. -/
def peerMssFromOptions (options : Bytes) (length : Nat) : Reading Nat :=
  mssLoop options length (length + 1) 0 Tcp.tcpMaxPayload

/-- The checks of `handle_tcp`, and the fields of the segment. `tcp.cpp:405–419,434,456`. -/
def readSegment (s : Net) (source destination : IPAddress) (packet : Bytes) (length : Nat) :
    Reading (Option Tcp.Segment) := do
  if !s.client.active || decide (length < 20) || !(source == s.remoteAddress) ||
      !(destination == s.ipAddr) then return none
  else
    let sourcePort ← readBe16 packet 0
    let destinationPort ← readBe16 packet 2
    if sourcePort ≠ s.remotePort ∨ destinationPort ≠ s.localPort then return none
    else
      let headerLength := ((← byteAt packet 12) >>> 4).toNat * 4
      if headerLength < 20 ∨ length < headerLength then return none
      else if (← pseudoChecksum 6 source destination packet length) ≠ 0 then return none
      else
        let flags ← byteAt packet 13
        let sequence ← readBe32 packet 4
        let acknowledgement ← readBe32 packet 8
        let mss ← peerMssFromOptions (packet.drop 20) (headerLength - 20)
        let payload ← bytesAt packet headerLength (length - headerLength)
        return some ⟨flags, sequence, acknowledgement, mss, payload⟩

/-- The rest of `handle_tcp`: send what is pending, and go on behind it. It sends at most four
times. -/
def finishSegment : Nat → Option Tcp.Pending → NetM Unit
  | _, none => return ()
  | 0, some _ => throw .outOfFuel
  | sends + 1, some pending => do
    let sent ← sendSegment line resolve pending.outgoing
    let s ← get
    let (client, next) ← Tcp.resume pending.next sent s.client
    set { s with client := client }
    finishSegment sends next

/-- A segment that passed the checks. -/
def receiveSegment (segment : Tcp.Segment) : NetM Unit := do
  let s ← get
  let (client, pending) ← Tcp.handleSegment s.client segment
  set { s with client := client }
  finishSegment line resolve 4 pending

/-- `handle_tcp`. -/
def handleTcp (source destination : IPAddress) (packet : Bytes) (length : Nat) : NetM Unit := do
  let s ← get
  match ← readSegment s source destination packet length with
  | none => return ()
  | some segment => receiveSegment line resolve segment

/-- `is_local_destination`. -/
def isLocalDestination (ipAddr address : IPAddress) : Bool :=
  if address = .zero then ipAddr.b0 == 0
  else if isBroadcast address then true
  else address == ipAddr

/-- The reply to an echo request. `ipv4.cpp:211–219`. -/
def echoReply (payload : Bytes) (length : Nat) : Reading Bytes := do
  let bytes ← bytesAt payload 0 length
  let reply ← putAll (List.replicate 1480 0) [(0, bytes), (0, [0]), (2, bytes16 0)]
  let sum ← checksum reply length
  putBytes reply 2 (bytes16 sum)

/-- The echo of ICMP. `ipv4.cpp:206–228`. -/
def handleIcmp (source : IPAddress) (payload : Bytes) (length : Nat) : NetM Unit := do
  let identifier ← readBe16 payload 4
  let sequence ← readBe16 payload 6
  let type ← byteAt payload 0
  let code ← byteAt payload 1
  let s ← get
  if type = 8 ∧ s.ipAddr.b0 ≠ 0 then
    let reply ← echoReply payload length
    discard <| sendIpv4 line resolve .ipAddr source 1 reply length
  else if s.ping.inProgress ∧ type = 0 ∧ code = 0 ∧ identifier = s.ping.replyIdentifier ∧
      sequence = s.ping.replySequence ∧ source = s.ping.target then
    set { s with ping := { s.ping with replyReceived := true } }
  else return ()

/-- A DHCP reply while the host has no address. `ipv4.cpp:195`. -/
def pendingDhcpReply (s : Net) (protocol : UInt8) (payload : Bytes) (length : Nat) :
    Reading Bool := do
  if s.ipAddr.b0 = 0 ∧ protocol = 17 ∧ 4 ≤ length then return (← readBe16 payload 2) == 68
  else return false

/-- The dispatch of `handle_ipv4` on the protocol. -/
def handleProtocol (protocol : UInt8) (source destination : IPAddress) (payload : Bytes)
    (length : Nat) : NetM Unit := do
  if protocol = 17 then handleUdp line resolve source destination payload length
  else if protocol = 6 then handleTcp line resolve source destination payload length
  else if protocol = 1 ∧ 8 ≤ length then
    if (← checksum payload length) = 0 then handleIcmp line resolve source payload length
    else return ()
  else return ()

/-- `handle_ipv4`. -/
def handleIpv4 (packet : Bytes) (length : Nat) : NetM Unit := do
  if length < 20 then return ()
  else
    let first ← byteAt packet 0
    let headerLength := (first &&& 0x0F).toNat * 4
    let totalLength ← readBe16 packet 2
    if first >>> 4 ≠ 4 ∨ headerLength < 20 ∨ length < headerLength ∨ totalLength < headerLength ∨
        length < totalLength then return ()
    else if (← checksum packet headerLength) ≠ 0 then return ()
    else
      let fragment ← readBe16 packet 6
      if fragment &&& 0x3FFF ≠ 0 then return ()
      else
        let source ← readAddress packet 12
        let destination ← readAddress packet 16
        let protocol ← byteAt packet 9
        let payload := packet.drop headerLength
        let payloadLength := totalLength - headerLength
        let s ← get
        let pending ← pendingDhcpReply s protocol payload payloadLength
        if !isLocalDestination s.ipAddr destination && !pending then return ()
        else handleProtocol line resolve protocol source destination payload payloadLength

/-- `handle_frame`, over a function that resolves addresses. -/
def handleFrameWith (frame : Bytes) : NetM Unit := do
  if frame.length < 14 then return ()
  else
    modify fun s => { s with rxPackets := s.rxPackets + 1 }
    let etherType ← readBe16 frame 12
    if etherType = 0x0806 then handleArp line (frame.drop 14) (frame.length - 14)
    else if etherType = 0x0800 then handleIpv4 line resolve (frame.drop 14) (frame.length - 14)
    else return ()

/-- `Ethernet::poll`: the frames that arrived are handled one after the other. -/
def pollWith (handle : Bytes → NetM Unit) : NetM Unit := do
  let s ← get
  set { s with moment := s.moment + 1 }
  (line.arrivals s.moment).forM handle

/-- `handle_frame`. A handler that sends may wait for an address and handle other frames meanwhile;
`depth` bounds how deep that goes and how often it waits. -/
def handleFrame : Nat → Bytes → NetM Unit
  | 0, _ => throw .outOfFuel
  | depth + 1, frame =>
    handleFrameWith line (resolveArp line (pollWith line (handleFrame depth)) depth) frame

/-- `resolve_arp` of the driver. -/
def resolveAddress (depth : Nat) : Resolve :=
  resolveArp line (pollWith line (handleFrame line depth)) depth

end NasuaOS.Network
