import NasuaOS.Network.Interface

/-!
# The DHCP client

`src/resources/drivers/network/functions/dhcp.cpp`. What the client logs is left out.
-/

namespace NasuaOS.Network

open Base

/-- `DHCPOptions`. -/
structure DHCPOptions where
  messageType : UInt8
  server : IPAddress
  mask : IPAddress
  router : IPAddress
  dns : IPAddress
  hasMessageType : Bool
  hasServer : Bool
  hasMask : Bool
  hasRouter : Bool
  hasDns : Bool
  deriving DecidableEq, Repr

/-- `{}`. -/
def DHCPOptions.empty : DHCPOptions :=
  ⟨0, .zero, .zero, .zero, .zero, false, false, false, false, false⟩

/-- `address_is_zero`. -/
def addressIsZero (address : IPAddress) : Bool := address == .zero

/-- `address_is_usable`. -/
def addressIsUsable (address : IPAddress) : Bool :=
  !addressIsZero address && decide (address.b0 < 224) && !(address.b0 == 127)

/-- Take one option with its value at `cursor`. `dhcp.cpp:209–247`. -/
def takeOption (packet : Bytes) (cursor : Nat) (code optionLength : UInt8)
    (options : DHCPOptions) : Reading DHCPOptions := do
  if code = 53 ∧ optionLength = 1 then
    return { options with messageType := ← byteAt packet cursor, hasMessageType := true }
  else if code = 54 ∧ optionLength = 4 then
    return { options with server := ← readAddress packet cursor, hasServer := true }
  else if code = 1 ∧ optionLength = 4 then
    return { options with mask := ← readAddress packet cursor, hasMask := true }
  else if code = 3 ∧ 4 ≤ optionLength then
    return { options with router := ← readAddress packet cursor, hasRouter := true }
  else if code = 6 ∧ 4 ≤ optionLength then
    return { options with dns := ← readAddress packet cursor, hasDns := true }
  else return options

/-- The loop of `parse_options`, with `end_seen`; `none` is its return of `false`. -/
def optionLoop (packet : Bytes) (length : Nat) :
    Nat → Nat → DHCPOptions → Reading (Option (Bool × DHCPOptions))
  | 0, _, _ => .error .outOfFuel
  | fuel + 1, cursor, options =>
    if cursor < length then do
      let code ← byteAt packet cursor
      let cursor := cursor + 1
      if code = 0 then optionLoop packet length fuel cursor options
      else if code = 255 then return some (true, options)
      else if length ≤ cursor then return none
      else
        let optionLength ← byteAt packet cursor
        let cursor := cursor + 1
        if length - cursor < optionLength.toNat then return none
        else
          let options ← takeOption packet cursor code optionLength options
          optionLoop packet length fuel ((cursor + optionLength.toNat) % 2 ^ 16) options
    else return some (false, options)

/-- `parse_options`. Each round of its loop moves the cursor on, so `length` rounds are enough. -/
def parseOptions (packet : Bytes) (length : Nat) : Reading (Option DHCPOptions) := do
  if length < 240 then return none
  else
    let cookie ← bytesAt packet 236 4
    if cookie ≠ [99, 130, 83, 99] then return none
    else
      match ← optionLoop packet length (length + 1) 240 .empty with
      | some (endSeen, options) =>
        if endSeen && options.hasMessageType then return some options else return none
      | none => return none

variable (line : Line) (resolve : Resolve)

/-- `create_transaction_id`. -/
def createTransactionId : NetM Nat := do
  let now ← ticks line
  let s ← get
  let mix (id : UInt32) (byte : UInt8) : UInt32 := (id <<< 5 ||| id >>> 27) ^^^ byte.toUInt32
  let id := s.macAddr.bytes.foldl mix (now ^^^ now >>> 32).toUInt32
  return (id ^^^ id >>> 16).toNat % 2 ^ 16

/-- `append_option`: the packet and the cursor behind the option. -/
def appendOption (packet : Bytes) (cursor : Nat) (code : UInt8) (value : Bytes) :
    Reading (Bytes × Nat) := do
  let packet ← putBytes packet cursor (code :: UInt8.ofNat value.length :: value)
  return (packet, cursor + 2 + value.length)

/-- The options that only a request has. `dhcp.cpp:137–141`. -/
def appendRequest (dhcp : Dhcp) (packet : Bytes) (cursor : Nat) (request : Bool) :
    Reading (Bytes × Nat) :=
  if request then do
    let (packet, cursor) ← appendOption packet cursor 50 dhcp.offeredAddress.bytes
    appendOption packet cursor 54 dhcp.selectedServer.bytes
  else return (packet, cursor)

/-- The packet of a message, and its length. `dhcp.cpp:108–149`. -/
def dhcpMessage (dhcp : Dhcp) (macAddr : MACAddress) (elapsed : UInt64) (request : Bool) :
    Reading (Bytes × Nat) := do
  let packet ← putAll (List.replicate 300 0)
    [(0, [1, 1, 6]), (4, bytes32 dhcp.transactionId),
      (8, bytes16 (if 6553500 < elapsed then 0xFFFF else (elapsed / 100).toNat % 2 ^ 16)),
      (10, bytes16 0x8000),
      (28, macAddr.bytes),
      (236, [99, 130, 83, 99])]
  let (packet, cursor) ← appendOption packet 240 53 [if request then 3 else 1]
  let (packet, cursor) ← appendOption packet cursor 61 (1 :: macAddr.bytes)
  let (packet, cursor) ← appendRequest dhcp packet cursor request
  let (packet, cursor) ← appendOption packet cursor 55 [1, 3, 6, 15, 51, 58, 59]
  let packet ← putBytes packet cursor [255]
  return (packet, cursor + 1)

/-- `transmit_message`. -/
def transmitMessage (request : Bool) : NetM Bool := do
  let elapsed ← ticks line
  let s ← get
  let (packet, length) ← dhcpMessage s.dhcp s.macAddr elapsed request
  sendUdp line resolve (.value .zero) ⟨255, 255, 255, 255⟩ 68 67 packet length

/-- `begin_discovery`. -/
def beginDiscovery : NetM Unit := do
  let high ← createTransactionId line
  let low ← createTransactionId line
  let id := UInt32.ofNat (high * 2 ^ 16 + (low ^^^ 0xA5C3))
  modify fun s => { s with dhcp := { s.dhcp with
    transactionId := if id = 0 then 1 else id
    offeredAddress := .zero
    selectedServer := .zero
    offeredMask := .zero
    offeredRouter := .zero
    offeredDns := .zero
    attempts := 0
    state := .discovering } }
  discard <| transmitMessage line resolve false
  let now ← ticks line
  modify fun s => { s with dhcp := { s.dhcp with attempts := 1, retryAt := now + 100 } }

/-- `dhcp_start`. -/
def dhcpStart : NetM Unit := do
  let s ← get
  if !s.available then set { s with dhcp := { s.dhcp with state := .stopped } }
  else beginDiscovery line resolve

/-- `dhcp_poll`. -/
def dhcpPoll : NetM Unit := do
  let s ← get
  if s.dhcp.state ≠ .discovering ∧ s.dhcp.state ≠ .requesting then return ()
  else
    let now ← ticks line
    if now < s.dhcp.retryAt then return ()
    else if 4 ≤ s.dhcp.attempts then
      modify fun s => { s with dhcp := { s.dhcp with state := .failed } }
    else
      discard <| transmitMessage line resolve (s.dhcp.state == .requesting)
      modify fun s => { s with dhcp := { s.dhcp with attempts := s.dhcp.attempts + 1 } }
      let now ← ticks line
      modify fun s =>
        let delay : UInt64 := 100 <<< UInt64.ofNat (s.dhcp.attempts - 1)
        { s with dhcp := { s.dhcp with retryAt := now + if 800 < delay then 800 else delay } }

/-- `apply_configuration`. -/
def applyConfiguration (assigned : IPAddress) (options : DHCPOptions) (s : Net) : Net :=
  { s with
    ipAddr := if addressIsZero assigned then s.dhcp.offeredAddress else assigned
    netmask := if options.hasMask then options.mask else s.dhcp.offeredMask
    gateway := if options.hasRouter then options.router else s.dhcp.offeredRouter
    dnsServer := if options.hasDns then options.dns else s.dhcp.offeredDns
    dhcp := { s.dhcp with state := .bound } }

/-- The tests of `dhcp_receive` on the fixed part of a packet. `dhcp.cpp:328–338`. -/
def replyIsMine (s : Net) (packet : Bytes) (length : Nat) : Reading Bool := do
  if length < 240 then return false
  else
    let start ← bytesAt packet 0 3
    let id ← readBe32 packet 4
    let hardware ← readMac packet 28
    return start == [2, 1, 6] && id == s.dhcp.transactionId && hardware == s.macAddr

/-- An offer that is taken. `dhcp.cpp:348–375`. -/
def takeOffer (offered : IPAddress) (options : DHCPOptions) : NetM Unit := do
  if !addressIsUsable offered || !addressIsUsable options.server then return ()
  else
    modify fun s => { s with dhcp := { s.dhcp with
      offeredAddress := offered
      selectedServer := options.server
      offeredMask := options.mask
      offeredRouter := options.router
      offeredDns := options.dns
      attempts := 0
      state := .requesting } }
    discard <| transmitMessage line resolve true
    let now ← ticks line
    modify fun s => { s with dhcp := { s.dhcp with attempts := 1, retryAt := now + 100 } }

/-- A reply to a request. `dhcp.cpp:377–400`. -/
def takeReply (assigned : IPAddress) (options : DHCPOptions) : NetM Unit := do
  let s ← get
  if options.hasServer && !(options.server == s.dhcp.selectedServer) then return ()
  else if options.messageType = 6 then beginDiscovery line resolve
  else if options.messageType ≠ 5 then return ()
  else if !addressIsZero assigned && !(assigned == s.dhcp.offeredAddress) then return ()
  else set (applyConfiguration assigned options s)

/-- `dhcp_receive`. -/
def dhcpReceive (packet : Bytes) (length : Nat) : NetM Unit := do
  let s ← get
  if ← replyIsMine s packet length then
    match ← parseOptions packet length with
    | none => return ()
    | some options =>
      let assigned ← readAddress packet 16
      if s.dhcp.state = .discovering ∧ options.messageType = 2 ∧ options.hasServer then
        takeOffer line resolve assigned options
      else if s.dhcp.state ≠ .requesting then return ()
      else takeReply line resolve assigned options
  else return ()

end NasuaOS.Network
