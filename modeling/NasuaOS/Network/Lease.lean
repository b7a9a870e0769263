import NasuaOS.Base.Runs
import NasuaOS.Network.Loads
import NasuaOS.Network.Options

/-!
# The states of the DHCP client

The client is driven by `dhcp_start`, `dhcp_poll` and the packets it receives. Its messages are
broadcasts, so sending one never handles another packet. `LeaseTurn` says everything that one of the
three can do; what holds over whole runs is derived from it.
-/

namespace NasuaOS.Network

open Base

/-- What can happen to the client. -/
inductive LeaseEvent
  | start
  | poll
  | receive (packet : Bytes)
  deriving DecidableEq, Repr

variable {lazy : Prop} {line : Line} {resolve : Resolve}
  {s s' t : Net} {k : Nat} {reply : DHCPOptions → Prop} {e : LeaseEvent}

/-- The variables that DHCP configures. -/
def Net.configuration (s : Net) : IPAddress × IPAddress × IPAddress × IPAddress :=
  (s.ipAddr, s.netmask, s.gateway, s.dnsServer)

/-- The variables that have nothing to do with DHCP. -/
def Net.aside (s : Net) : Tcp.Client × Bindings × List Call := (s.client, s.bindings, s.calls)

/-- From `s` at most `k` frames were sent, and the configuration did not change. -/
structure Sends (s : Net) (k : Nat) (t : Net) : Prop where
  configuration : t.configuration = s.configuration
  aside : t.aside = s.aside
  sent : s.sent.length ≤ t.sent.length ∧ t.sent.length ≤ s.sent.length + k

/-- The variables of DHCP did not change either. -/
structure Quiet (s : Net) (k : Nat) (t : Net) : Prop extends Sends s k t where
  dhcp : t.dhcp = s.dhcp

private theorem Quiet.refl (s : Net) : Quiet s 0 s := ⟨⟨rfl, rfl, le_rfl, le_rfl⟩, rfl⟩

private theorem Quiet.succ (h : Quiet s k t) : Quiet s (k + 1) t :=
  ⟨⟨h.configuration, h.aside, h.sent.1, Nat.le_succ_of_le h.sent.2⟩, h.dhcp⟩

private theorem Sends.none (h : Sends s 0 t) : t.sent.length - s.sent.length = 0 :=
  Nat.sub_eq_zero_of_le h.sent.2

private theorem Quiet.sends {n : Nat} (h : Quiet t n s') (hc : t.configuration = s.configuration)
    (ha : t.aside = s.aside)
    (hs : s.sent.length ≤ t.sent.length ∧ t.sent.length ≤ s.sent.length + k) :
    Sends s (k + n) s' := by
  refine ⟨h.configuration.trans hc, h.aside.trans ha, ?_⟩
  have hsent := h.sent
  omega

private theorem ticks_quiet : Triple lazy (Quiet s k) (ticks line) fun _ => Quiet s k :=
  .get_bind fun _ ht => .bind (.set fun _ _ => ⟨⟨ht.1.1, ht.1.2, ht.1.3⟩, ht.2⟩) fun _ =>
    .pure fun _ => id

private theorem quiet_from {α : Type} {x : NetM α}
    (h : Triple lazy (Quiet s 0) x fun _ => Quiet s k) :
    Triple lazy (fun t => t = s) x fun _ => Quiet s k := by
  refine h.conseq ?_ fun _ _ => id
  rintro t rfl
  exact Quiet.refl t

variable {length : Nat} {packet : Bytes}

private theorem sendFrame_quiet {frame : Bytes} (h : length ≤ frame.length) :
    Triple lazy (Quiet s k) (sendFrame line frame length) fun _ => Quiet s (k + 1) := by
  refine .get_bind fun t ht => ?_
  split
  · exact .pure fun _ heq => heq ▸ ht.succ
  · refine .lift_bind (.bytesAt (by omega)) fun bytes _ => ?_
    split
    · refine .bind (.set fun _ _ => ?_) fun _ => .pure fun _ => id
      refine ⟨⟨ht.configuration, ht.aside, ?_⟩, ht.dhcp⟩
      have hsent := ht.sent
      simp only [List.length_append, List.length_cons, List.length_nil]
      omega
    · refine .bind (.set fun _ _ => ?_) fun _ => .pure fun _ => id
      exact Quiet.succ ⟨⟨ht.1.1, ht.1.2, ht.1.3⟩, ht.2⟩

private theorem sendIpv4_quiet {source : Source} {protocol : UInt8} {payload : Bytes}
    (hlength : length ≤ payload.length) : Triple lazy (Quiet s k)
      (sendIpv4 line resolve source ⟨255, 255, 255, 255⟩ protocol payload length)
      fun _ => Quiet s (k + 1) := by
  rw [sendIpv4]
  split
  · exact .pure fun _ => Quiet.succ
  · next hmax =>
    refine .bind (Q := fun mac t => mac = some broadcastMac ∧ Quiet s k t) ?_ fun mac => ?_
    · exact .get_bind fun t ht => .pure fun _ heq => ⟨rfl, heq ▸ ht⟩
    · cases mac with
      | none => exact .pure fun _ ht => absurd ht.1 nofun
      | some mac =>
        refine .get_bind fun t ht => ?_
        refine .bind (Q := fun _ => Quiet s k) (.set fun _ _ => ?_) fun _ => ?_
        · exact ⟨⟨ht.2.1.1, ht.2.1.2, ht.2.1.3⟩, ht.2.2⟩
        · refine .lift_bind (ipv4Frame_yields (by omega) hlength) fun frame h => ?_
          exact sendFrame_quiet (by omega)

private theorem transmitMessage_quiet (request : Bool) :
    Triple lazy (Quiet s k) (transmitMessage line resolve request) fun _ => Quiet s (k + 1) := by
  refine .bind ticks_quiet fun elapsed => .get_bind fun t ht => ?_
  refine .lift_bind (dhcpMessage_yields ..) ?_
  rintro ⟨packet, length⟩ ⟨hpacket, hlength⟩
  have hlength : length ≤ packet.length := Nat.le_trans hlength (Nat.le_of_eq hpacket.symm)
  change Triple lazy _ (sendUdp line resolve _ _ _ _ packet length) _
  rw [sendUdp]
  split
  · exact .pure fun _ heq => heq ▸ ht.succ
  · next hmax =>
    refine .get_bind fun u hu => ?_
    refine .lift_bind (udpPacket_yields (by omega) hlength) fun packet h => ?_
    refine (sendIpv4_quiet (by omega)).conseq ?_ fun _ _ => id
    rintro v rfl
    exact hu ▸ ht

/-- The function that is called. -/
def leaseProgram (line : Line) (resolve : Resolve) :
    LeaseEvent → NetM Unit
  | .start => dhcpStart line resolve
  | .poll => dhcpPoll line resolve
  | .receive packet => dhcpReceive line resolve packet packet.length

/-- One turn. -/
def leaseStep (line : Line) (resolve : Resolve) (s : Net)
    (e : LeaseEvent) : Option Net :=
  match leaseProgram line resolve e s with
  | .ok (_, s') => some s'
  | .error _ => none

/-- A reply that is taken: the current transaction, this hardware address, and no other server than
the selected one. -/
structure Reply (s : Net) (packet : Bytes) (options : DHCPOptions) : Prop where
  transaction : readBe32 packet 4 = .ok s.dhcp.transactionId
  hardware : readMac packet 28 = .ok s.macAddr
  parsed : parseOptions packet packet.length = .ok (some options)
  server : options.hasServer = false ∨ options.server = s.dhcp.selectedServer

/-- What a discovery starts with. -/
structure Discovery (s' : Net) : Prop where
  state : s'.dhcp.state = .discovering
  attempts : s'.dhcp.attempts = 1

/-- The client looks for an address. -/
def Looking (s : Net) : Prop := s.dhcp.state = .discovering ∨ s.dhcp.state = .requesting

/-- What the client can do in one turn; `reply` is what is known of the options of a packet. -/
inductive LeaseTurn (reply : DHCPOptions → Prop) (s : Net) : LeaseEvent → Net → Prop
  /-- Nothing but a reading of the clock. -/
  | quiet {e : LeaseEvent} {s' : Net} (he : e ≠ .start) (h : Quiet s 0 s') : LeaseTurn reply s e s'
  /-- There is no interface. -/
  | stopped {s' : Net} (hstate : s'.dhcp.state = .stopped) (h : Sends s 0 s') :
    LeaseTurn reply s .start s'
  /-- A discovery begins, by `dhcp_start` or because the request was refused. -/
  | discover {e : LeaseEvent} {s' : Net} (he : e = .start ∨ s.dhcp.state = .requesting)
    (hdiscovery : Discovery s') (h : Sends s 1 s') : LeaseTurn reply s e s'
  /-- The last attempt was not answered. -/
  | failed {s' : Net} (hlooking : Looking s) (hattempts : 4 ≤ s.dhcp.attempts)
    (hstate : s'.dhcp.state = .failed) (h : Sends s 0 s') : LeaseTurn reply s .poll s'
  /-- Another attempt. -/
  | again {s' : Net} (hlooking : Looking s) (hattempts : s.dhcp.attempts < 4)
    (hdhcp : s'.dhcp = { s.dhcp with
      attempts := s.dhcp.attempts + 1, retryAt := s'.dhcp.retryAt })
    (h : Sends s 1 s') : LeaseTurn reply s .poll s'
  /-- An offer is taken. -/
  | offered {packet : Bytes} {s' : Net} (hbefore : s.dhcp.state = .discovering)
    (hstate : s'.dhcp.state = .requesting) (hattempts : s'.dhcp.attempts = 1)
    (husable : addressIsUsable s'.dhcp.offeredAddress = true) (h : Sends s 1 s') :
    LeaseTurn reply s (.receive packet) s'
  /-- The request is acknowledged. -/
  | acknowledged {packet : Bytes} {options : DHCPOptions} {s' : Net}
    (hbefore : s.dhcp.state = .requesting) (hreply : reply options)
    (htype : options.messageType = 5) (hdhcp : s'.dhcp = { s.dhcp with state := .bound })
    (haddress : s'.ipAddr = s.dhcp.offeredAddress) (hsent : s'.sent.length ≤ s.sent.length)
    (haside : s'.aside = s.aside) : LeaseTurn reply s (.receive packet) s'

private theorem nothing_turn (he : e ≠ .start) :
    Triple lazy (fun t => t = s) (pure () : NetM Unit) fun _ => LeaseTurn reply s e := by
  refine .pure ?_
  rintro _ rfl
  exact .quiet he (Quiet.refl _)

private theorem transmit_then (request : Bool) (g : UInt64 → Net → Net) (s : Net) :
    Triple lazy (fun t => t = s)
      (do discard (transmitMessage line resolve request); let now ← ticks line; modify (g now))
      fun _ t => ∃ u now, Quiet s 1 u ∧ t = g now u := by
  have hsend : Triple lazy (fun t => t = s) (discard (transmitMessage line resolve request))
      fun _ => Quiet s 1 := quiet_from (.discard (transmitMessage_quiet request))
  refine .bind hsend fun _ => .bind ticks_quiet fun now => ?_
  exact .modify fun u hu => ⟨u, now, hu, rfl⟩

private theorem beginDiscovery_turn (he : e = .start ∨ s.dhcp.state = .requesting) :
    Triple lazy (fun t => t = s) (beginDiscovery line resolve) fun _ => LeaseTurn reply s e := by
  have hid : Triple lazy (Quiet s 0) (createTransactionId line) fun _ => Quiet s 0 :=
    .bind ticks_quiet fun _ => .get_bind fun t ht => .pure fun _ heq => heq ▸ ht
  refine .bind (quiet_from hid) fun high => .bind hid fun low => ?_
  refine .modify_bind fun t ht => (transmit_then false _ _).conseq (fun _ => id) ?_
  rintro _ _ ⟨u, now, hu, rfl⟩
  have hsends := hu.sends ht.configuration ht.aside ht.sent
  exact .discover he ⟨congrArg Dhcp.state hu.dhcp, rfl⟩ ⟨hsends.1, hsends.2, hsends.3⟩

private theorem dhcpStart_turn :
    Triple lazy (fun t => t = s) (dhcpStart line resolve) fun _ => LeaseTurn reply s .start := by
  refine .get_bind fun t ht => ?_
  subst ht
  split
  · exact .set fun _ _ => .stopped rfl ⟨rfl, rfl, le_rfl, le_rfl⟩
  · exact beginDiscovery_turn (.inl rfl)

private theorem dhcpPoll_turn :
    Triple lazy (fun t => t = s) (dhcpPoll line resolve) fun _ => LeaseTurn reply s .poll := by
  refine .get_bind fun t ht => ?_
  subst ht
  split
  · exact nothing_turn nofun
  · next hstate =>
    have hlooking : Looking t := by
      rw [Looking]
      tauto
    refine .bind (quiet_from ticks_quiet) fun now => ?_
    split
    · exact .pure fun u hu => .quiet nofun hu
    split
    · next hattempts =>
      exact .modify fun u hu => .failed hlooking hattempts rfl ⟨hu.1.1, hu.1.2, hu.1.3⟩
    · next hattempts =>
      have hsend : Triple lazy (Quiet t 0)
          (discard (transmitMessage line resolve (t.dhcp.state == .requesting))) fun _ => Quiet t 1 :=
        .discard (transmitMessage_quiet _)
      refine .bind hsend fun _ => .modify_bind fun u hu =>
        .bind (quiet_from ticks_quiet) fun now => ?_
      refine .modify fun v hv => .again hlooking (Nat.lt_of_not_le hattempts) ?_ ?_
      · have hdhcp : v.dhcp = { t.dhcp with attempts := t.dhcp.attempts + 1 } := by
          rw [hv.dhcp, hu.dhcp]
        simp only [hdhcp]
      · have hsends := hv.sends hu.configuration hu.aside hu.sent
        exact ⟨hsends.1, hsends.2, hsends.3⟩

private theorem takeOffer_turn (offered : IPAddress) (options : DHCPOptions)
    (hstate : s.dhcp.state = .discovering) :
    Triple lazy (fun t => t = s) (takeOffer line resolve offered options)
      fun _ => LeaseTurn reply s (.receive packet) := by
  rw [takeOffer]
  split
  · exact nothing_turn nofun
  · next husable =>
    have husable : addressIsUsable offered = true := by
      simp only [Bool.or_eq_true, not_or, Bool.not_eq_true', Bool.not_eq_false] at husable
      exact husable.1
    refine .modify_bind fun t ht => (transmit_then true _ _).conseq (fun _ => id) ?_
    rintro _ _ ⟨u, now, hu, rfl⟩
    subst ht
    refine .offered hstate (congrArg Dhcp.state hu.dhcp) rfl ?_ ⟨hu.1.1, hu.1.2, hu.1.3⟩
    exact (congrArg (fun d => addressIsUsable d.offeredAddress) hu.dhcp).trans husable

private theorem takeReply_turn {assigned : IPAddress} {options : DHCPOptions}
    (hstate : s.dhcp.state = .requesting)
    (hreply : options.hasServer = false ∨ options.server = s.dhcp.selectedServer → reply options) :
    Triple lazy (fun t => t = s) (takeReply line resolve assigned options)
      fun _ => LeaseTurn reply s (.receive packet) := by
  refine .get_bind fun t ht => ?_
  subst ht
  split
  · exact nothing_turn nofun
  · next hserver =>
    have hserver : options.hasServer = false ∨ options.server = t.dhcp.selectedServer := by
      simp only [Bool.and_eq_true, Bool.not_eq_true', beq_eq_false_iff_ne, not_and,
        Decidable.not_not] at hserver
      cases hhas : options.hasServer with
      | false => exact .inl rfl
      | true => exact .inr (hserver hhas)
    split
    · exact beginDiscovery_turn (.inr hstate)
    split
    · exact nothing_turn nofun
    · next htype =>
      split
      · exact nothing_turn nofun
      · next hassigned =>
        refine .set fun _ _ => .acknowledged hstate (hreply hserver) (not_not.mp htype) rfl ?_
          le_rfl rfl
        rw [applyConfiguration]
        cases hzero : addressIsZero assigned with
        | true => rfl
        | false =>
          simp only [hzero, Bool.not_false, Bool.true_and, Bool.not_eq_true', beq_eq_false_iff_ne,
            Decidable.not_not] at hassigned
          exact hassigned

private theorem replyIsMine_true (h : replyIsMine s packet length = .ok true) :
    readBe32 packet 4 = .ok s.dhcp.transactionId ∧ readMac packet 28 = .ok s.macAddr := by
  rw [replyIsMine] at h
  split at h
  · cases h
  · obtain ⟨start, -, h⟩ := bind_eq_ok.mp h
    obtain ⟨id, hid, h⟩ := bind_eq_ok.mp h
    obtain ⟨hardware, hhardware, h⟩ := bind_eq_ok.mp h
    have h : (start == [2, 1, 6] && id == s.dhcp.transactionId && hardware == s.macAddr) = true :=
      Except.ok.inj h
    simp only [Bool.and_eq_true, beq_iff_eq] at h
    exact ⟨h.1.2 ▸ hid, h.2 ▸ hhardware⟩

/-- A packet. -/
theorem dhcpReceive_turn (h : length ≤ packet.length) (hlow : lazy ∨ length < 2 ^ 16)
    (hreply : ∀ options, readBe32 packet 4 = .ok s.dhcp.transactionId →
      readMac packet 28 = .ok s.macAddr → parseOptions packet length = .ok (some options) →
      options.hasServer = false ∨ options.server = s.dhcp.selectedServer → reply options) :
    Triple lazy (fun t => t = s) (dhcpReceive line resolve packet length)
      fun _ => LeaseTurn reply s (.receive packet) := by
  refine .get_bind fun t ht => ?_
  subst ht
  refine .lift_bind (replyIsMine_yields h).eq ?_
  rintro mine ⟨hmine, hlong⟩
  split
  · next htrue =>
    refine .lift_bind (parseOptions_yields h hlow).eq fun options hoptions => ?_
    cases options with
    | none => exact nothing_turn nofun
    | some options =>
      have hlong := hlong htrue
      refine .lift_bind (readAddress_yields (by omega)) fun assigned _ => ?_
      split
      · next hoffer => exact takeOffer_turn assigned options hoffer.1
      split
      · exact nothing_turn nofun
      · next hrequest =>
        obtain ⟨htransaction, hhardware⟩ := replyIsMine_true (htrue ▸ hmine)
        exact takeReply_turn (not_not.mp hrequest) (hreply options htransaction hhardware hoptions.1)
  · exact nothing_turn nofun

/-- What a reply is, of the packet that an event delivers. -/
def LeaseEvent.Replies (s : Net) : LeaseEvent → DHCPOptions → Prop
  | .receive packet, options => Reply s packet options
  | _, _ => False

private theorem leaseProgram_turn (he : lazy ∨ ∀ packet, e = .receive packet →
    packet.length < 2 ^ 16) : Triple lazy (fun t => t = s) (leaseProgram line resolve e)
      fun _ => LeaseTurn (e.Replies s) s e := by
  cases e with
  | start => exact dhcpStart_turn
  | poll => exact dhcpPoll_turn
  | receive packet =>
    exact dhcpReceive_turn le_rfl (he.imp_right fun he => he packet rfl)
      fun _ htransaction hhardware hparsed hserver => ⟨htransaction, hhardware, hparsed, hserver⟩

private theorem leaseStep_turn (h : leaseStep line resolve s e = some s') :
    LeaseTurn (e.Replies s) s e s' := by
  rw [leaseStep] at h
  split at h
  · next t heq =>
    cases h
    exact ((leaseProgram_turn (.inl trivial)).yields s rfl).result heq
  · cases h

private theorem leaseStep_total (line : Line) (resolve : Resolve)
    (s : Net) (e : LeaseEvent) (he : ∀ packet, e = .receive packet → packet.length < 2 ^ 16) :
    ∃ s', leaseStep line resolve s e = some s' := by
  obtain ⟨⟨_, s'⟩, hs', -⟩ := ((leaseProgram_turn (.inr he)).yields s rfl).returns
  refine ⟨s', ?_⟩
  rw [leaseStep, hs']

/-- Count the frames that are sent in a phase: a phase ends with the state, or by a new start. -/
def countPhase (line : Line) (resolve : Resolve) (s : Net)
    (e : LeaseEvent) (n : Nat) : Nat :=
  match leaseStep line resolve s e with
  | none => n
  | some s' =>
    if e = .start ∨ s'.dhcp.state ≠ s.dhcp.state then s'.sent.length - s.sent.length
    else n + (s'.sent.length - s.sent.length)

/-- What holds of the client in every state, with the number of frames sent in its phase. -/
structure Lease (s : Net) (n : Nat) : Prop where
  few : n ≤ 4
  attempts : Looking s → n ≤ s.dhcp.attempts ∧ s.dhcp.attempts ≤ 4
  requesting : s.dhcp.state = .requesting → addressIsUsable s.dhcp.offeredAddress = true
  bound : s.dhcp.state = .bound →
    s.ipAddr = s.dhcp.offeredAddress ∧ addressIsUsable s.dhcp.offeredAddress = true

private theorem Lease.idle (h : s.dhcp.state = .stopped ∨ s.dhcp.state = .failed) : Lease s 0 := by
  rcases h with h | h
  · refine ⟨Nat.zero_le _, ?_, ?_, ?_⟩ <;> simp [Looking, h]
  · refine ⟨Nat.zero_le _, ?_, ?_, ?_⟩ <;> simp [Looking, h]

private theorem Lease.step {n : Nat} (h : Lease s n) (hstep : leaseStep line resolve s e = some s') :
    Lease s' (countPhase line resolve s e n) := by
  have hcount : countPhase line resolve s e n =
      if e = .start ∨ s'.dhcp.state ≠ s.dhcp.state then s'.sent.length - s.sent.length
      else n + (s'.sent.length - s.sent.length) := by
    rw [countPhase, hstep]
  rw [hcount]
  cases leaseStep_turn hstep with
  | quiet he hquiet =>
    have hsent := hquiet.sent
    have hsame : s'.dhcp = s.dhcp := hquiet.dhcp
    have haddress : s'.ipAddr = s.ipAddr := congrArg Prod.fst hquiet.configuration
    rw [if_neg (by rw [hsame]; tauto)]
    refine ⟨?_, ?_, ?_, ?_⟩
    · have := h.few
      omega
    · intro hlooking
      rw [Looking, hsame] at hlooking
      have := h.attempts hlooking
      rw [hsame]
      omega
    · rw [hsame]
      exact h.requesting
    · rw [hsame, haddress]
      exact h.bound
  | stopped hstate hsends =>
    rw [if_pos (.inl rfl), hsends.none]
    exact .idle (.inl hstate)
  | discover he hdiscovery hsends =>
    have hsent := hsends.sent
    have hphase : e = .start ∨ s'.dhcp.state ≠ s.dhcp.state := by
      refine he.imp_right fun hrequesting => ?_
      rw [hdiscovery.state, hrequesting]
      exact nofun
    rw [if_pos hphase]
    refine ⟨by omega, ?_, ?_, ?_⟩
    · intro _
      rw [hdiscovery.attempts]
      omega
    · simp [hdiscovery.state]
    · simp [hdiscovery.state]
  | failed hlooking _ hstate hsends =>
    have hphase : s'.dhcp.state ≠ s.dhcp.state := by
      rw [hstate]
      rintro heq
      rw [Looking, ← heq] at hlooking
      simp at hlooking
    rw [if_pos (.inr hphase), hsends.none]
    exact .idle (.inr hstate)
  | again hlooking hattempts hdhcp hsends =>
    have hsent := hsends.sent
    have hstate : s'.dhcp.state = s.dhcp.state := by rw [hdhcp]
    have hnumber : s'.dhcp.attempts = s.dhcp.attempts + 1 := by rw [hdhcp]
    have hoffered : s'.dhcp.offeredAddress = s.dhcp.offeredAddress := by rw [hdhcp]
    have hbefore := h.attempts hlooking
    rw [if_neg (by rw [hstate]; simp)]
    refine ⟨by omega, fun _ => by omega, ?_, ?_⟩
    · rw [hstate, hoffered]
      exact h.requesting
    · intro hbound
      rw [Looking, ← hstate, hbound] at hlooking
      simp at hlooking
  | offered hbefore hstate hattempts husable hsends =>
    have hsent := hsends.sent
    rw [if_pos (.inr (by rw [hstate, hbefore]; exact nofun))]
    refine ⟨by omega, ?_, fun _ => husable, ?_⟩
    · intro _
      rw [hattempts]
      omega
    · simp [hstate]
  | acknowledged hbefore _ _ hdhcp haddress hsent _ =>
    have hstate : s'.dhcp.state = .bound := by rw [hdhcp]
    have hoffered : s'.dhcp.offeredAddress = s.dhcp.offeredAddress := by rw [hdhcp]
    rw [if_pos (.inr (by rw [hstate, hbefore]; exact nofun)), Nat.sub_eq_zero_of_le hsent]
    refine ⟨Nat.zero_le _, ?_, ?_, ?_⟩
    · intro hlooking
      rw [Looking, hstate] at hlooking
      simp at hlooking
    · simp [hstate]
    · intro _
      rw [haddress, hoffered]
      exact ⟨rfl, h.requesting hbefore⟩

private theorem poll_fails (hlooking : Looking s) (hattempts : 4 ≤ s.dhcp.attempts)
    (hdue : s.dhcp.retryAt ≤ line.clock s.moment) : leaseStep line resolve s .poll =
      some { s with moment := s.moment + 1, dhcp := { s.dhcp with state := .failed } } := by
  have hstate : ¬ (s.dhcp.state ≠ .discovering ∧ s.dhcp.state ≠ .requesting) := by
    rw [Looking] at hlooking
    tauto
  have hprogram : dhcpPoll line resolve s =
      .ok ((), { s with moment := s.moment + 1, dhcp := { s.dhcp with state := .failed } }) := by
    change (if _ then _ else _ : NetM Unit) s = _
    rw [if_neg hstate]
    change (if _ then _ else _ : NetM Unit) _ = _
    rw [if_neg (UInt64.not_lt.mpr hdue), if_pos hattempts]
    rfl
  rw [leaseStep, leaseProgram, hprogram]

/-- In every run of the DHCP client at most four messages are sent in a phase, a bound client has the
address that was offered, which is usable, and each further turn is possible, changes the
configuration only by an acknowledgement of the request, and ends a phase whose attempts are used up
when it is due. -/
theorem dhcp_lease {events : List LeaseEvent} {s₀ : Net} (hstart : s₀.dhcp.state = .stopped)
    (hrun : steps (leaseStep line resolve) events s₀ = some s) :
    recorded (leaseStep line resolve) (countPhase line resolve) events s₀ 0 ≤ 4 ∧
    (s.dhcp.state = .bound → s.ipAddr = s.dhcp.offeredAddress ∧ s.ipAddr ≠ .zero ∧
      s.ipAddr.b0 < 224 ∧ s.ipAddr.b0 ≠ 127) ∧
    ∀ e, (∀ packet, e = .receive packet → packet.length < 2 ^ 16) →
      ∃ s', leaseStep line resolve s e = some s' ∧
        (s'.configuration ≠ s.configuration → ∃ packet options, e = .receive packet ∧
          s.dhcp.state = .requesting ∧ s'.dhcp.state = .bound ∧ Reply s packet options ∧
          options.messageType = 5) ∧
        (e = .poll → Looking s → 4 ≤ s.dhcp.attempts → s.dhcp.retryAt ≤ line.clock s.moment →
          s'.dhcp.state = .failed ∧ s'.sent = s.sent) := by
  have hmeets : Meets (leaseStep line resolve) (countPhase line resolve) (fun _ _ _ => True) events
      s₀ 0 := meets_of_events (fun _ _ => trivial) s₀ 0
  have hlease : Lease s (recorded (leaseStep line resolve) (countPhase line resolve) events s₀ 0) :=
    steps_invariant (fun _ _ _ _ h _ hstep => h.step hstep) (.idle (.inl hstart))
      hmeets hrun
  refine ⟨hlease.few, ?_, ?_⟩
  · intro hbound
    obtain ⟨haddress, husable⟩ := hlease.bound hbound
    rw [← haddress] at husable
    simp only [addressIsUsable, addressIsZero, Bool.and_eq_true, Bool.not_eq_true',
      beq_eq_false_iff_ne, decide_eq_true_eq] at husable
    exact ⟨haddress, husable.1.1, husable.1.2, husable.2⟩
  · intro e he
    obtain ⟨s', hs'⟩ := leaseStep_total line resolve s e he
    refine ⟨s', hs', ?_, ?_⟩
    · intro hchanged
      cases leaseStep_turn hs' with
      | quiet _ hquiet => exact absurd hquiet.configuration hchanged
      | stopped _ hsends | discover _ _ hsends | failed _ _ _ hsends | again _ _ _ hsends
      | offered _ _ _ _ hsends => exact absurd hsends.configuration hchanged
      | acknowledged hbefore hreply htype hdhcp =>
        exact ⟨_, _, rfl, hbefore, by rw [hdhcp], hreply, htype⟩
    · rintro rfl hlooking hattempts hdue
      rw [poll_fails hlooking hattempts hdue] at hs'
      cases hs'
      exact ⟨rfl, rfl⟩

/-- A message of a server at 10.0.0.1 about the address 10.0.0.9. -/
def serverMessage (type : UInt8) : Bytes :=
  [2, 1, 6, 0] ++ bytes32 67215810 ++ List.replicate 8 0 ++ [10, 0, 0, 9] ++ List.replicate 8 0 ++
    [2, 0, 0, 0, 0, 1] ++ List.replicate 202 0 ++
    [99, 130, 83, 99, 53, 1, type, 54, 4, 10, 0, 0, 1, 255]

/-- Discovery, offer, a poll while the request waits, acknowledgement. -/
def leaseEvents : List LeaseEvent :=
  [.start, .receive (serverMessage 2), .poll, .receive (serverMessage 5)]

/-- From the start of the driver to a lease. -/
theorem dhcp_lease_bound :
    ∃ s, steps (leaseStep .still fun _ => pure none) leaseEvents
      (Net.initial ⟨2, 0, 0, 0, 0, 1⟩) = some s ∧ s.dhcp.state = .bound ∧
      s.ipAddr = s.dhcp.offeredAddress ∧ s.ipAddr ≠ .zero ∧
      recorded (leaseStep .still fun _ => pure none) (countPhase .still fun _ => pure none)
        leaseEvents (Net.initial ⟨2, 0, 0, 0, 0, 1⟩) 0 ≤ 4 := by
  have hbound : (steps (leaseStep .still fun _ => pure none) leaseEvents
      (Net.initial ⟨2, 0, 0, 0, 0, 1⟩)).map (·.dhcp.state) = some .bound := by
    decide +kernel
  obtain ⟨s, hrun, hstate⟩ := Option.map_eq_some_iff.mp hbound
  obtain ⟨hfew, hlease, -⟩ := dhcp_lease rfl hrun
  exact ⟨s, hrun, hstate, (hlease hstate).1, (hlease hstate).2.1, hfew⟩

end NasuaOS.Network
