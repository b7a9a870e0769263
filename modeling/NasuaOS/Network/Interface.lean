import NasuaOS.Base.Bytes
import NasuaOS.Tcp.Client

/-!
# The network driver: its state and what it sends

`src/resources/drivers/network/functions/network.cpp:10–39`, `arp.cpp`, `ipv4.cpp:11–115`,
`udp.cpp:3–97`. The clock, the frames that arrive and whether the interface takes a frame are given
from outside; each time the driver asks for one of them it moves on to the next `moment`. Sending may
wait for an address and poll the interface meanwhile, which runs the receive handlers again; what
sends is therefore written over a function that resolves addresses. Local buffers have the sizes of
the source and stores into them are checked.
-/

namespace NasuaOS.Network

open Base Function List

/-- `IPAddress`. -/
structure IPAddress where
  b0 : UInt8
  b1 : UInt8
  b2 : UInt8
  b3 : UInt8
  deriving DecidableEq, Repr

/-- `IPAddress::bytes`. -/
def IPAddress.bytes (a : IPAddress) : Bytes := [a.b0, a.b1, a.b2, a.b3]

/-- `{}`. -/
def IPAddress.zero : IPAddress := ⟨0, 0, 0, 0⟩

/-- `MACAddress`. -/
structure MACAddress where
  b0 : UInt8
  b1 : UInt8
  b2 : UInt8
  b3 : UInt8
  b4 : UInt8
  b5 : UInt8
  deriving DecidableEq, Repr

/-- `MACAddress::bytes`. -/
def MACAddress.bytes (a : MACAddress) : Bytes := [a.b0, a.b1, a.b2, a.b3, a.b4, a.b5]

/-- Four bytes. -/
@[simp] theorem IPAddress.length_bytes (a : IPAddress) : a.bytes.length = 4 := rfl

/-- Six bytes. -/
@[simp] theorem MACAddress.length_bytes (a : MACAddress) : a.bytes.length = 6 := rfl

/-- Four bytes of a packet as an address. -/
def readAddress (packet : Bytes) (i : Nat) : Reading IPAddress := do
  let b0 ← byteAt packet i
  let b1 ← byteAt packet (i + 1)
  let b2 ← byteAt packet (i + 2)
  let b3 ← byteAt packet (i + 3)
  return ⟨b0, b1, b2, b3⟩

/-- Six bytes of a packet as an address. -/
def readMac (packet : Bytes) (i : Nat) : Reading MACAddress := do
  let b0 ← byteAt packet i
  let b1 ← byteAt packet (i + 1)
  let b2 ← byteAt packet (i + 2)
  let b3 ← byteAt packet (i + 3)
  let b4 ← byteAt packet (i + 4)
  let b5 ← byteAt packet (i + 5)
  return ⟨b0, b1, b2, b3, b4, b5⟩

/-- `ArpEntry`. -/
structure ArpEntry where
  ip : IPAddress
  mac : MACAddress
  updated : UInt64
  valid : Bool
  deriving DecidableEq, Repr

/-- `DHCPState`. -/
inductive DHCPState
  | stopped
  | discovering
  | requesting
  | bound
  | failed
  deriving DecidableEq, Repr

/-- The variables of the DHCP client. `dhcp.cpp:36–44`. -/
structure Dhcp where
  state : DHCPState
  transactionId : UInt32
  attempts : Nat
  retryAt : UInt64
  offeredAddress : IPAddress
  selectedServer : IPAddress
  offeredMask : IPAddress
  offeredRouter : IPAddress
  offeredDns : IPAddress
  deriving DecidableEq, Repr

/-- The variables of the resolver that `receive_dns_response` uses. `dns.cpp:9–13`. -/
structure Dns where
  activeId : Nat
  queryComplete : Bool
  querySucceeded : Bool
  queryAddress : IPAddress
  deriving DecidableEq, Repr

/-- The variables of `ping` that the receive path uses. `ipv4.cpp:14–18`. -/
structure Ping where
  replyReceived : Bool
  replyIdentifier : Nat
  replySequence : Nat
  target : IPAddress
  inProgress : Bool
  deriving DecidableEq, Repr

/-- A `UDPReceiveHandler`: the one of the resolver, or one of another module. -/
inductive Handler
  | receiveDnsResponse
  | other (id : Nat)
  deriving DecidableEq, Repr

/-- `UDPBinding`. -/
structure UDPBinding where
  port : Nat
  handler : Option Handler
  deriving DecidableEq, Repr

/-- `bindings`: no two of them have one port. -/
structure Bindings where
  slot : Fin 8 → UDPBinding
  distinct : ∀ i j, (slot i).port = (slot j).port → (slot i).port ≠ 0 → i = j

/-- A call of a handler. -/
structure Call where
  handler : Handler
  source : IPAddress
  sourcePort : Nat
  payload : Bytes
  deriving DecidableEq, Repr

/-- The variables of the driver, what it sent, and the calls of handlers. -/
structure Net where
  available : Bool
  macAddr : MACAddress
  ipAddr : IPAddress
  netmask : IPAddress
  gateway : IPAddress
  dnsServer : IPAddress
  rxPackets : Nat
  txPackets : Nat
  arpCache : Fin 16 → ArpEntry
  nextIpId : Nat
  ping : Ping
  dhcp : Dhcp
  dns : Dns
  bindings : Bindings
  client : Tcp.Client
  remoteAddress : IPAddress
  localPort : Nat
  remotePort : Nat
  moment : Nat
  sent : List Bytes
  calls : List Call

/-- The client before the first connection: all zero. -/
def noClient : Tcp.Client where
  active := false
  synAcknowledged := false
  reset := false
  requestAcknowledged := false
  peerClosed := false
  localFinSent := false
  overflow := false
  requestSent := false
  streamMode := false
  peerMss := 0
  initialSequence := 0
  nextSequence := 0
  nextRemoteSequence := 0
  requestSequence := 0
  response := fun _ => 0
  responseCapacity := 0
  responseLength := 0
  transmitAcknowledged := 0
  receiveHead := 0
  receiveLength := 0
  receiveQueue := fun _ => 0

/-- The variables as `init` leaves them before it calls `dhcp_start`, of an interface that is
there. `network.cpp:61–80`. -/
def Net.initial (macAddr : MACAddress) : Net where
  available := true
  macAddr := macAddr
  ipAddr := .zero
  netmask := .zero
  gateway := .zero
  dnsServer := .zero
  rxPackets := 0
  txPackets := 0
  arpCache := fun _ => ⟨.zero, ⟨0, 0, 0, 0, 0, 0⟩, 0, false⟩
  nextIpId := 1
  ping := ⟨false, 0x4E53, 0, .zero, false⟩
  dhcp := ⟨.stopped, 0, 0, 0, .zero, .zero, .zero, .zero, .zero⟩
  dns := ⟨0, false, false, .zero⟩
  bindings := ⟨fun _ => ⟨0, none⟩, fun _ _ _ h => absurd rfl h⟩
  client := noClient
  remoteAddress := .zero
  localPort := 0
  remotePort := 0
  moment := 0
  sent := []
  calls := []

/-- A program of the driver. -/
abbrev NetM (α : Type) : Type := Program Net α

/-- How the driver finds the hardware address of a host. -/
abbrev Resolve : Type := IPAddress → NetM (Option MACAddress)

/-- What is outside: the clock, whether a frame is taken, and the frames that a poll delivers. -/
structure Line where
  clock : Nat → UInt64
  accepts : Nat → Bool
  arrivals : Nat → List Bytes

/-- The clock stands, every frame is taken and none arrives. -/
def Line.still : Line := ⟨fun _ => 0, fun _ => true, fun _ => []⟩

variable (line : Line)

/-- `ticks`. -/
def ticks : NetM UInt64 := do
  let s ← get
  set { s with moment := s.moment + 1 }
  return line.clock s.moment

/-- `send_frame`. -/
def sendFrame (frame : Bytes) (length : Nat) : NetM Bool := do
  let s ← get
  if !s.available then return false
  else
    let bytes ← bytesAt frame 0 length
    if line.accepts s.moment then
      set { s with
        moment := s.moment + 1, txPackets := s.txPackets + 1, sent := s.sent ++ [bytes] }
      return true
    else
      set { s with moment := s.moment + 1 }
      return false

/-- Where `cache_address` puts an address: the entry of the address, or the last that was invalid or
older than all before it. `arp.cpp:36–54`. -/
def cacheTarget (cache : Fin 16 → ArpEntry) (ip : IPAddress) (now : UInt64) :
    List (Fin 16) → Fin 16 → UInt64 → Fin 16
  | [], target, _ => target
  | index :: rest, target, oldestAge =>
    if (cache index).valid && (cache index).ip == ip then index
    else
      let age := now - (cache index).updated
      if !(cache index).valid || decide (oldestAge < age) then cacheTarget cache ip now rest index age
      else cacheTarget cache ip now rest target oldestAge

/-- `cache_address`. -/
def cacheAddress (ip : IPAddress) (mac : MACAddress) : NetM Unit := do
  let now ← ticks line
  modify fun s =>
    let target := cacheTarget s.arpCache ip now (finRange 16) 0 0
    { s with arpCache := update s.arpCache target ⟨ip, mac, now, true⟩ }

/-- The loop of `cached_address`: entries of the address that are too old become invalid. -/
def cachedScan (ip : IPAddress) (now : UInt64) :
    List (Fin 16) → (Fin 16 → ArpEntry) → Option MACAddress × (Fin 16 → ArpEntry)
  | [], cache => (none, cache)
  | index :: rest, cache =>
    if (cache index).valid && (cache index).ip == ip then
      if now - (cache index).updated ≤ 3000 then (some (cache index).mac, cache)
      else
        cachedScan ip now rest (update cache index { cache index with valid := false })
    else cachedScan ip now rest cache

/-- `cached_address`. -/
def cachedAddress (ip : IPAddress) : NetM (Option MACAddress) := do
  let now ← ticks line
  let s ← get
  let (mac, cache) := cachedScan ip now (finRange 16) s.arpCache
  set { s with arpCache := cache }
  return mac

/-- The frame of an ARP packet. `arp.cpp:83–106,128–150`. -/
def arpFrame (destination macAddr : MACAddress) (ipAddr : IPAddress) (operation : Nat)
    (targetMac : MACAddress) (targetIp : IPAddress) : Reading Bytes :=
  putAll (replicate 42 0)
    [(0, destination.bytes), (6, macAddr.bytes), (12, bytes16 0x0806), (14, bytes16 1),
      (14 + 2, bytes16 0x0800),
      (14 + 4, [6]),
      (14 + 5, [4]),
      (14 + 6, bytes16 operation),
      (14 + 8, macAddr.bytes),
      (14 + 18, targetMac.bytes),
      (14 + 14, ipAddr.bytes),
      (14 + 24, targetIp.bytes)]

/-- The two ARP packets that the driver sends. -/
def sendArp (destination : MACAddress) (operation : Nat) (targetMac : MACAddress)
    (targetIp : IPAddress) : NetM Bool := do
  let s ← get
  let frame ← arpFrame destination s.macAddr s.ipAddr operation targetMac targetIp
  sendFrame line frame 42

/-- The Ethernet broadcast address. -/
def broadcastMac : MACAddress := ⟨0xFF, 0xFF, 0xFF, 0xFF, 0xFF, 0xFF⟩

/-- `send_request`. -/
def sendRequest (target : IPAddress) : NetM Bool :=
  sendArp line broadcastMac 1 ⟨0, 0, 0, 0, 0, 0⟩ target

/-- The inner loop of `resolve_arp`: poll until the address is known or the time is over. -/
def waitForAddress (poll : NetM Unit) (address : IPAddress) (start : UInt64) :
    Nat → NetM (Option MACAddress)
  | 0 => throw .outOfFuel
  | fuel + 1 => do
    let now ← ticks line
    if now - start < 100 then
      poll
      match ← cachedAddress line address with
      | some mac => return some mac
      | none => waitForAddress poll address start fuel
    else return none

/-- The attempts of `resolve_arp`. -/
def resolveAttempts (poll : NetM Unit) (fuel : Nat) (address : IPAddress) :
    Nat → NetM (Option MACAddress)
  | 0 => return none
  | attempts + 1 => do
    if ← sendRequest line address then
      let start ← ticks line
      match ← waitForAddress line poll address start fuel with
      | some mac => return some mac
      | none => resolveAttempts poll fuel address attempts
    else return none

/-- `resolve_arp`. -/
def resolveArp (poll : NetM Unit) (fuel : Nat) (address : IPAddress) : NetM (Option MACAddress) := do
  match ← cachedAddress line address with
  | some mac => return some mac
  | none => resolveAttempts line poll fuel address 3

/-- `is_broadcast`. -/
def isBroadcast (address : IPAddress) : Bool := address == ⟨255, 255, 255, 255⟩

/-- `same_subnet`. -/
def sameSubnet (netmask left right : IPAddress) : Bool :=
  left.b0 &&& netmask.b0 == right.b0 &&& netmask.b0 &&
    left.b1 &&& netmask.b1 == right.b1 &&& netmask.b1 &&
    left.b2 &&& netmask.b2 == right.b2 &&& netmask.b2 &&
    left.b3 &&& netmask.b3 == right.b3 &&& netmask.b3

/-- A `const IPAddress&` that is passed as the source: an address of the caller, or the variable
`ip_addr`, which may change before it is read. -/
inductive Source
  | value (address : IPAddress)
  | ipAddr
  deriving DecidableEq, Repr

/-- What a source refers to. -/
def Source.read (source : Source) (s : Net) : IPAddress :=
  match source with
  | .value address => address
  | .ipAddr => s.ipAddr

variable (resolve : Resolve)

/-- The Ethernet address that a packet goes to. `ipv4.cpp:64–88`. -/
def destinationMac (source : Source) (destination : IPAddress) : NetM (Option MACAddress) := do
  let s ← get
  if isBroadcast destination then return some broadcastMac
  else if sameSubnet s.netmask (source.read s) destination then resolve destination
  else if s.gateway.b0 = 0 then return none
  else resolve s.gateway

/-- The frame of a packet. `ipv4.cpp:90–113`. -/
def ipv4Frame (destinationMac macAddr : MACAddress) (id : Nat) (source destination : IPAddress)
    (protocol : UInt8) (payload : Bytes) (length : Nat) : Reading Bytes := do
  let frame ← putAll (replicate (14 + 20 + 1480) 0)
    [(0, destinationMac.bytes), (6, macAddr.bytes), (12, bytes16 0x0800), (14, [0x45]),
      (14 + 2, bytes16 (20 + length)),
      (14 + 4, bytes16 id),
      (14 + 6, bytes16 0x4000),
      (14 + 8, [64]),
      (14 + 9, [protocol]),
      (14 + 12, source.bytes),
      (14 + 16, destination.bytes)]
  let sum ← checksum (frame.drop 14) 20
  let payload ← bytesAt payload 0 length
  putAll frame [(14 + 10, bytes16 sum), (14 + 20, payload)]

/-- `send_ipv4_packet`. -/
def sendIpv4 (source : Source) (destination : IPAddress) (protocol : UInt8) (payload : Bytes)
    (length : Nat) : NetM Bool := do
  if 1480 < length then return false
  else
    match ← destinationMac resolve source destination with
    | none => return false
    | some mac =>
      let s ← get
      set { s with nextIpId := (s.nextIpId + 1) % 2 ^ 16 }
      let frame ←
        ipv4Frame mac s.macAddr s.nextIpId (source.read s) destination protocol payload length
      sendFrame line frame (14 + 20 + length)

/-- The checksum over a pseudo header and `length` bytes of a packet, which are first copied to one
buffer. `udp.cpp:76–91,113–129`, `tcp.cpp:76–91`. -/
def pseudoChecksum (protocol : UInt8) (source destination : IPAddress) (packet : Bytes)
    (length : Nat) : Reading Nat := do
  let packet ← bytesAt packet 0 length
  let buffer ← putAll (replicate (12 + 1480) 0)
    [(0, source.bytes), (4, destination.bytes), (9, [protocol]), (10, bytes16 length), (12, packet)]
  checksum buffer (12 + length)

/-- The packet of `send_udp`. `udp.cpp:69–96`. -/
def udpPacket (source destination : IPAddress) (sourcePort destinationPort : Nat)
    (payload : Bytes) (length : Nat) : Reading Bytes := do
  let payload ← bytesAt payload 0 length
  let packet ← putAll (replicate (8 + 1472) 0)
    [(0, bytes16 sourcePort), (2, bytes16 destinationPort), (4, bytes16 (8 + length)), (8, payload)]
  let sum ← pseudoChecksum 17 source destination packet (8 + length)
  putBytes packet 6 (bytes16 (if sum = 0 then 0xFFFF else sum))

/-- `send_udp`. -/
def sendUdp (source : Source) (destination : IPAddress) (sourcePort destinationPort : Nat)
    (payload : Bytes) (length : Nat) : NetM Bool := do
  if 1472 < length ∨ sourcePort = 0 ∨ destinationPort = 0 then return false
  else
    let s ← get
    let packet ← udpPacket (source.read s) destination sourcePort destinationPort payload length
    sendIpv4 line resolve source destination 17 packet (8 + length)

namespace Bindings

/-- The first binding with a port. -/
def find (b : Bindings) (port : Nat) : Option (Fin 8) :=
  (finRange 8).find? fun i => (b.slot i).port = port

variable {b : Bindings} {port : Nat} {i : Fin 8}

private theorem port_of_find (h : b.find port = some i) : (b.slot i).port = port := by
  simpa using find?_some h

private theorem ne_of_find (h : b.find port = none) (j : Fin 8) : (b.slot j).port ≠ port := by
  simpa using find?_eq_none.mp h j (mem_finRange j)

/-- Store a binding whose port no other binding has. -/
def put (b : Bindings) (i : Fin 8) (binding : UDPBinding)
    (h : ∀ j, j ≠ i → binding.port ≠ 0 → (b.slot j).port ≠ binding.port) : Bindings where
  slot := update b.slot i binding
  distinct := by
    intro j k heq hne
    by_cases hj : j = i
    · by_cases hk : k = i
      · rw [hj, hk]
      · rw [hj, update_self] at heq hne
        rw [update_of_ne hk] at heq
        exact absurd heq.symm (h k hk hne)
    · rw [update_of_ne hj] at heq hne
      by_cases hk : k = i
      · rw [hk, update_self] at heq
        exact absurd heq (h j hj (heq ▸ hne))
      · rw [update_of_ne hk] at heq
        exact b.distinct j k heq hne

/-- `bind_udp_port`. -/
def bindUdpPort (b : Bindings) (port : Nat) (handler : Option Handler) : Bool × Bindings :=
  if port = 0 ∨ handler = none then (false, b)
  else
    match hport : b.find port with
    | some i => (true, b.put i ⟨port, handler⟩ (by
        intro j hj hne heq
        have hi := port_of_find hport
        exact hj (b.distinct j i (heq.trans hi.symm) (heq ▸ hne))))
    | none =>
      match b.find 0 with
      | some i => (true, b.put i ⟨port, handler⟩ fun j _ _ => ne_of_find hport j)
      | none => (false, b)

/-- `unbind_udp_port`. -/
def unbindUdpPort (b : Bindings) (port : Nat) : Bindings :=
  match b.find port with
  | some i => b.put i ⟨0, none⟩ fun _ _ hne => absurd rfl hne
  | none => b

end Bindings

end NasuaOS.Network
