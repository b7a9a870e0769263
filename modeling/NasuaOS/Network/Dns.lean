import NasuaOS.Network.Interface

/-!
# Responses to DNS queries

`src/resources/drivers/network/functions/dns.cpp:27–108`.
-/

namespace NasuaOS.Network

open Base

/-- `skip_name`: the result, and the offset it leaves. Each round of its loop moves the offset on. -/
def skipName (packet : Bytes) (length : Nat) : Nat → Nat → Reading (Bool × Nat)
  | 0, _ => .error .outOfFuel
  | fuel + 1, offset =>
    if offset < length then do
      let label ← byteAt packet offset
      let offset := offset + 1
      if label = 0 then return (true, offset)
      else if label &&& 0xC0 = 0xC0 then
        if length ≤ offset then return (false, offset)
        else
          let low ← byteAt packet offset
          let pointer := (label &&& 0x3F).toNat * 256 + low.toNat
          return (decide (pointer < length), offset + 1)
      else if label &&& 0xC0 ≠ 0 ∨ length - offset < label.toNat then return (false, offset)
      else skipName packet length fuel ((offset + label.toNat) % 2 ^ 16)
    else return (false, offset)

/-- What becomes of the query when the answers have been looked at. -/
inductive Answer
  /-- The response is ignored. -/
  | ignored
  /-- No answer has an address. -/
  | empty
  /-- The first answer with an address. -/
  | address (a : IPAddress)
  deriving DecidableEq, Repr

/-- The loop over the answers. `dns.cpp:78–106`. -/
def answerLoop (packet : Bytes) (length : Nat) : Nat → Nat → Reading Answer
  | 0, _ => return .empty
  | answers + 1, offset => do
    let (named, offset) ← skipName packet length (length + 1) offset
    if !named || decide (length - offset < 10) then return .ignored
    else
      let type ← readBe16 packet offset
      let recordClass ← readBe16 packet (offset + 2)
      let dataLength ← readBe16 packet (offset + 8)
      let offset := offset + 10
      if length - offset < dataLength then return .ignored
      else if type = 1 ∧ recordClass = 1 ∧ dataLength = 4 then
        return .address (← readAddress packet offset)
      else answerLoop packet length answers ((offset + dataLength) % 2 ^ 16)

/-- Where the answers start: behind the first question, which asks for an address. `dns.cpp:65–70`. -/
def skipQuestion (packet : Bytes) (length : Nat) : Reading (Option Nat) := do
  let (named, offset) ← skipName packet length (length + 1) 12
  if !named || decide (length - offset < 4) then return none
  else
    let type ← readBe16 packet offset
    let questionClass ← readBe16 packet (offset + 2)
    if type ≠ 1 ∨ questionClass ≠ 1 then return none
    else return some (offset + 4)

/-- What a response says. `dns.cpp:52–107`; `12 ≤ length`. -/
def dnsAnswer (packet : Bytes) (length : Nat) : Reading Answer := do
  let flags ← readBe16 packet 2
  let questionCount ← readBe16 packet 4
  let answerCount ← readBe16 packet 6
  if flags &&& 0x8000 = 0 ∨ flags &&& 0x7800 ≠ 0 ∨ questionCount = 0 then return .ignored
  else
    match ← skipQuestion packet length with
    | none => return .ignored
    | some offset =>
      if flags &&& 0x0200 ≠ 0 ∨ flags &&& 0x000F ≠ 0 then return .empty
      else answerLoop packet length answerCount offset

/-- `receive_dns_response`. -/
def receiveDnsResponse (source : IPAddress) (sourcePort : Nat) (packet : Bytes)
    (length : Nat) : NetM Unit := do
  let s ← get
  if sourcePort ≠ 53 ∨ source ≠ s.dnsServer ∨ length < 12 then return ()
  else
    let id ← readBe16 packet 0
    if id ≠ s.dns.activeId then return ()
    else
      match ← dnsAnswer packet length with
      | .ignored => return ()
      | .empty => set { s with dns := { s.dns with queryComplete := true } }
      | .address a =>
        set { s with dns := { s.dns with
          queryAddress := a, querySucceeded := true, queryComplete := true } }

end NasuaOS.Network
