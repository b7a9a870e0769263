import NasuaOS.Network.Echo
import NasuaOS.Network.Lease
import NasuaOS.Tcp.Response

/-!
# The receive path stays in bounds

A program keeps what is known of the client, the address of the host, the DHCP client and the UDP
handlers when it leaves them so, and touches nothing outside its buffers. Everything that only
counts, logs or changes other variables keeps all of it. The lengths that handlers are told are
never more than what the frame still has, so every load is inside the frame.
-/

namespace NasuaOS.Network

open Base List

/-- What is known of the client, the address of the host, the DHCP client, and the handlers with
their calls. -/
abbrev Known : Type := Tcp.Client → IPAddress → Dhcp → Bindings × List Call → Prop

/-- It is true in a state. -/
def Known.Holds (R : Known) (s : Net) : Prop := R s.client s.ipAddr s.dhcp (s.bindings, s.calls)

/-- A program keeps it, and stays inside its buffers. -/
def Keeps {α : Type} (lazy : Prop) (R : Known) (x : NetM α) : Prop :=
  Triple lazy R.Holds x fun _ => R.Holds

variable {lazy : Prop} {R : Known} {α β : Type} {packet payload : Bytes} {length : Nat}

namespace Keeps

private theorem pure (a : α) : Keeps lazy R (pure a) := Triple.pure fun _ => id

private theorem bind {x : NetM α} {f : α → NetM β} (hx : Keeps lazy R x) (hf : ∀ a, Keeps lazy R (f a)) :
    Keeps lazy R (x >>= f) :=
  Triple.bind hx hf

private theorem discard {x : NetM α} (hx : Keeps lazy R x) : Keeps lazy R (discard x) := Triple.discard hx

private theorem get {f : Net → NetM β} (h : ∀ s, R.Holds s → Keeps lazy R (f s)) :
    Keeps lazy R (MonadState.get >>= f) :=
  Triple.get_bind fun s hs => (h s hs).conseq (fun _ ht => ht ▸ hs) fun _ _ => id

private theorem set {t : Net} (h : R.Holds t) : Keeps lazy R (set t) := Triple.set fun _ _ => h

private theorem modify {f : Net → Net} (h : ∀ s, R.Holds s → R.Holds (f s)) : Keeps lazy R (modify f) :=
  Triple.modify h

private theorem read {x : Reading α} {K : α → Prop} {f : α → NetM β} (hx : Yields lazy x K)
    (h : ∀ a, K a → Keeps lazy R (f a)) : Keeps lazy R (liftM x >>= f) :=
  Triple.lift_bind hx h

private theorem outOfFuel (h : lazy) : Keeps lazy R (throw .outOfFuel : NetM α) := Triple.outOfFuel h

private theorem forM {f : α → NetM PUnit} {l : List α} (h : ∀ a ∈ l, Keeps lazy R (f a)) :
    Keeps lazy R (l.forM f) :=
  Triple.forM h

end Keeps

variable {line : Line} {resolve : Resolve}

private theorem ticks_keeps : Keeps lazy R (ticks line) :=
  .get fun _ hs => .bind (.set hs) fun _ => .pure _

variable {frame : Bytes} {poll : NetM Unit} {active : Bool}

private theorem sendFrame_keeps {length : Nat} (h : length ≤ frame.length) :
    Keeps lazy R (sendFrame line frame length) := by
  apply Keeps.get
  intro s hs
  split
  · exact .pure _
  · refine .read (Yields.bytesAt (by omega)) fun bytes _ => ?_
    split
    · exact .bind (.set hs) fun _ => .pure _
    · exact .bind (.set hs) fun _ => .pure _

private theorem cacheAddress_keeps (ip : IPAddress) (mac : MACAddress) :
    Keeps lazy R (cacheAddress line ip mac) :=
  .bind ticks_keeps fun _ => .modify fun _ => id

private theorem cachedAddress_keeps (ip : IPAddress) : Keeps lazy R (cachedAddress line ip) :=
  .bind ticks_keeps fun _ => .get fun _ hs => .bind (.set hs) fun _ => .pure _

private theorem sendArp_keeps (destination : MACAddress) (operation : Nat) (targetMac : MACAddress)
    (targetIp : IPAddress) : Keeps lazy R
      (sendArp line destination operation targetMac targetIp) := by
  apply Keeps.get
  intro s _
  have hframe : Yields lazy (arpFrame destination s.macAddr s.ipAddr operation targetMac targetIp)
      fun frame => frame.length = 42 := .putAll (length_replicate ..) (by simp)
  exact .read hframe fun frame h => sendFrame_keeps (Nat.le_of_eq h.symm)

private theorem waitForAddress_keeps (hpoll : Keeps True R poll) (address : IPAddress)
    (start : UInt64) (fuel : Nat) : Keeps True R (waitForAddress line poll address start fuel) := by
  induction fuel with
  | zero => exact .outOfFuel trivial
  | succ fuel ih =>
    refine .bind ticks_keeps fun now => ?_
    split
    · refine .bind hpoll fun _ => .bind (cachedAddress_keeps address) fun mac => ?_
      cases mac with
      | some mac => exact .pure _
      | none => exact ih
    · exact .pure _

private theorem resolveAttempts_keeps (hpoll : Keeps True R poll) (fuel : Nat) (address : IPAddress)
    (attempts : Nat) : Keeps True R (resolveAttempts line poll fuel address attempts) := by
  induction attempts with
  | zero => exact .pure _
  | succ attempts ih =>
    refine .bind (sendArp_keeps ..) fun sent => ?_
    split
    · refine .bind ticks_keeps fun start => ?_
      refine .bind (waitForAddress_keeps hpoll address start fuel) fun mac => ?_
      cases mac with
      | some mac => exact .pure _
      | none => exact ih
    · exact .pure _

/-- An address that is resolved. -/
theorem resolveArp_keeps (hpoll : Keeps True R poll) (fuel : Nat) (address : IPAddress) :
    Keeps True R (resolveArp line poll fuel address) := by
  refine .bind (cachedAddress_keeps address) fun mac => ?_
  cases mac with
  | some mac => exact .pure _
  | none => exact resolveAttempts_keeps hpoll fuel address 3

/-- Where a packet goes to. -/
theorem destinationMac_keeps {source : Source} {destination : IPAddress}
    (hresolve : ∀ a, Keeps lazy R (resolve a)) :
    Keeps lazy R (destinationMac resolve source destination) := by
  apply Keeps.get
  intro s _
  split
  · exact .pure _
  split
  · exact hresolve _
  split
  · exact .pure _
  · exact hresolve _

private theorem sendIpv4_keeps {source : Source} {destination : IPAddress} {protocol : UInt8}
    (hresolve : ∀ a, Keeps lazy R (resolve a)) (hlength : length ≤ payload.length) :
    Keeps lazy R (sendIpv4 line resolve source destination protocol payload length) := by
  rw [sendIpv4]
  split
  · exact .pure _
  · next hmax =>
    refine .bind (destinationMac_keeps hresolve) fun mac => ?_
    cases mac with
    | none => exact .pure _
    | some mac =>
      apply Keeps.get
      intro s hs
      refine .bind (.set hs) fun _ => ?_
      refine .read (ipv4Frame_yields (by omega) hlength) fun frame h => ?_
      exact sendFrame_keeps (by omega)

/-- While DHCP looks for an address, what is known does not depend on the address or on DHCP. -/
def Leasable (R : Known) : Prop :=
  ∀ c a d h a' d', R c a d h → d.state = .discovering ∨ d.state = .requesting → R c a' d' h

/-- What is safe to know: the parts of `handle_tcp` keep it and have room for their stores, a lease
keeps it, and so does a call of a handler. -/
structure Safe (R : Known) : Prop where
  segment : ∀ c a d h seg, R c a d h → c.active = true →
    Yields True (Tcp.handleSegment c seg) fun r => R r.1 a d h
  resume : ∀ c a d h point sent, R c a d h → c.active = true →
    Yields True (Tcp.resume point sent c) fun r => R r.1 a d h
  dhcp : Leasable R
  call : ∀ c a d b calls call, R c a d (b, calls) → R c a d (b, calls ++ [call])

/-- A DHCP packet. -/
theorem dhcpReceive_keeps (hlease : Leasable R) (hmax : length ≤ 1480)
    (h : length ≤ packet.length) : Keeps lazy R (dhcpReceive line resolve packet length) := by
  refine ⟨fun s hs => ?_⟩
  have hturn : Triple lazy (fun t => t = s) (dhcpReceive line resolve packet length)
      fun _ => LeaseTurn (fun _ => True) s (.receive packet) :=
    dhcpReceive_turn h (.inr (by omega)) fun _ _ _ _ _ => trivial
  refine (hturn.yields s rfl).mono fun r hr => ?_
  have hholds (haside : r.2.aside = s.aside)
      (hknown : R s.client r.2.ipAddr r.2.dhcp (s.bindings, s.calls)) : R.Holds r.2 := by
    simp only [Net.aside, Prod.mk.injEq] at haside
    rw [Known.Holds, haside.1, haside.2.1, haside.2.2]
    exact hknown
  have hfree (hlooking : Looking s) : R s.client r.2.ipAddr r.2.dhcp (s.bindings, s.calls) :=
    hlease _ _ _ _ _ _ hs hlooking
  cases hr with
  | quiet _ hquiet =>
    have haddress : r.2.ipAddr = s.ipAddr := congrArg Prod.fst hquiet.configuration
    exact hholds hquiet.aside (by rw [haddress, hquiet.dhcp]; exact hs)
  | discover he _ hsends => exact hholds hsends.aside (hfree (.inr (he.resolve_left nofun)))
  | offered hbefore _ _ _ hsends => exact hholds hsends.aside (hfree (.inl hbefore))
  | acknowledged hbefore _ _ _ _ _ haside => exact hholds haside (hfree (.inr hbefore))

/-- A response to the resolver. -/
theorem receiveDnsResponse_keeps (source : IPAddress) (sourcePort : Nat) (hmax : length ≤ 1480)
    (h : length ≤ packet.length) :
    Keeps lazy R (receiveDnsResponse source sourcePort packet length) := by
  apply Keeps.get
  intro s hs
  split
  · exact .pure _
  · next hlong =>
    refine .read (.readBe16 (by omega)) fun id _ => ?_
    split
    · exact .pure _
    · refine .read (dnsAnswer_yields h (by omega) (by omega)) fun answer _ => ?_
      cases answer with
      | ignored => exact .pure _
      | empty | address a => exact .set hs

private theorem handleArp_keeps (h : length ≤ packet.length) :
    Keeps lazy R (handleArp line packet length) := by
  rw [handleArp]
  split
  · exact .pure _
  · next hlong =>
    refine .read (.readBe16 (by omega)) fun hardware _ => ?_
    refine .read (.readBe16 (by omega)) fun protocol _ => ?_
    refine .read (.byteAt (by omega)) fun hardwareSize _ => ?_
    refine .read (.byteAt (by omega)) fun protocolSize _ => ?_
    split
    · exact .pure _
    · refine .read (.readBe16 (by omega)) fun operation _ => ?_
      split
      · exact .pure _
      · refine .read (readMac_yields (by omega)) fun senderMac _ => ?_
        refine .read (readAddress_yields (by omega)) fun senderIp _ => ?_
        refine .bind (cacheAddress_keeps senderIp senderMac) fun _ => ?_
        refine .read (readAddress_yields (by omega)) fun target _ => ?_
        apply Keeps.get
        intro s _
        split
        · exact .discard (sendArp_keeps ..)
        · exact .pure _

private theorem callBinding_keeps (hsafe : Safe R) (destinationPort : Nat) (source : IPAddress)
    (sourcePort : Nat) (hmax : length ≤ 1480) (h : length ≤ payload.length) (i : Fin 8) :
    Keeps lazy R (callBinding destinationPort source sourcePort payload length i) := by
  apply Keeps.get
  intro s _
  split
  · next handler _ =>
    split
    · refine .read (.bytesAt (by omega)) fun bytes _ => ?_
      refine .bind (.modify fun t ht => hsafe.call _ _ _ _ _ _ ht) fun _ => ?_
      cases handler with
      | receiveDnsResponse => exact receiveDnsResponse_keeps source sourcePort hmax h
      | other id => exact .pure _
    · exact .pure _
  · exact .pure _

private theorem handleUdp_keeps (hsafe : Safe R) (source destination : IPAddress)
    (hmax : length ≤ 1480) (h : length ≤ packet.length) :
    Keeps lazy R (handleUdp line resolve source destination packet length) := by
  rw [handleUdp]
  split
  · exact .pure _
  · next hlong =>
    refine .read (.readBe16 (by omega)) fun udpLength _ => ?_
    split
    · exact .pure _
    · next hfits =>
      have hrest : udpLength - 8 ≤ (packet.drop 8).length := by
        rw [length_drop]
        omega
      refine .read (udpVerifies_yields (by omega) (by omega) (by omega)) fun verifies _ => ?_
      split
      · refine .read (.readBe16 (by omega)) fun sourcePort _ => ?_
        refine .read (.readBe16 (by omega)) fun destinationPort _ => ?_
        have hloop : Keeps lazy R ((finRange 8).forM
            (callBinding destinationPort source sourcePort (packet.drop 8) (udpLength - 8))) :=
          .forM fun i _ => callBinding_keeps hsafe destinationPort source sourcePort
            (by omega) hrest i
        split
        · exact .bind (dhcpReceive_keeps hsafe.dhcp (by omega) hrest) fun _ => hloop
        · exact hloop
      · exact .pure _

private theorem sendSegment_keeps (hresolve : ∀ a, Keeps lazy R (resolve a)) (o : Tcp.Outgoing) :
    Keeps lazy R (sendSegment line resolve o) := by
  rw [sendSegment]
  split
  · exact .pure _
  · next hmax =>
    have hmax : o.payload.length ≤ 1460 := Nat.le_of_not_lt hmax
    apply Keeps.get
    intro s _
    refine .read (tcpSegment_yields hmax) fun segment hsegment => ?_
    exact sendIpv4_keeps hresolve (by omega)

/-- What is known, of a client that is active or not. -/
def Known.with (R : Known) (active : Bool) : Known := fun c a d h => R c a d h ∧ c.active = active

private theorem resume_active {c : Tcp.Client} {point : Tcp.Point} {sent : Bool}
    {r : Tcp.Client × Option Tcp.Pending} (h : Tcp.resume point sent c = .ok r) :
    r.1.active = c.active := by
  have hsame := congrArg Tcp.Transmitting.active (Tcp.resume_transmitting h)
  split at hsame
  · exact hsame
  · exact hsame

private theorem Safe.with (hsafe : Safe R) (active : Bool) : Safe (R.with active) where
  segment c a d b seg h hactive :=
    (hsafe.segment c a d b seg h.1 hactive).eq.mono fun _ hr =>
      ⟨hr.2, (congrArg Tcp.Transmitting.active (Tcp.handleSegment_transmitting hr.1).1).trans h.2⟩
  resume c a d b point sent h hactive :=
    (hsafe.resume c a d b point sent h.1 hactive).eq.mono fun _ hr =>
      ⟨hr.2, (resume_active hr.1).trans h.2⟩
  dhcp c a d b a' d' h hstate := ⟨hsafe.dhcp c a d b a' d' h.1 hstate, h.2⟩
  call c a d b calls call h := ⟨hsafe.call c a d b calls call h.1, h.2⟩

private theorem finishSegment_keeps (hsafe : Safe R)
    (hresolve : ∀ a, Keeps True (R.with true) (resolve a)) (sends : Nat)
    (pending : Option Tcp.Pending) :
    Keeps True (R.with true) (finishSegment line resolve sends pending) := by
  induction sends generalizing pending with
  | zero =>
    cases pending with
    | none => exact .pure _
    | some pending => exact .outOfFuel trivial
  | succ sends ih =>
    cases pending with
    | none => exact .pure _
    | some pending =>
      refine .bind (sendSegment_keeps hresolve pending.outgoing) fun sent => ?_
      apply Keeps.get
      intro s hs
      refine .read ((hsafe.with true).resume _ _ _ _ pending.next sent hs hs.2) ?_
      rintro ⟨client, next⟩ hclient
      exact .bind (.set hclient) fun _ => ih next

private theorem handleTcp_keeps (hsafe : Safe R)
    (hresolve : ∀ active a, Keeps True (R.with active) (resolve a)) (source destination : IPAddress)
    (hmax : length ≤ 1480) (h : length ≤ packet.length) :
    Keeps True (R.with active) (handleTcp line resolve source destination packet length) := by
  apply Keeps.get
  intro s hs
  refine .read (readSegment_yields hmax h) fun segment hsegment => ?_
  cases segment with
  | none => exact .pure _
  | some segment =>
    have htrue : active = true := hs.2.symm.trans (hsegment _ rfl).1
    subst htrue
    apply Keeps.get
    intro t ht
    refine .read ((hsafe.with true).segment _ _ _ _ segment ht ht.2) ?_
    rintro ⟨client, pending⟩ hclient
    exact .bind (.set hclient) fun _ => finishSegment_keeps hsafe (hresolve true) 4 pending

private theorem handleIcmp_keeps (hresolve : ∀ a, Keeps lazy R (resolve a)) (source : IPAddress)
    (hlow : 8 ≤ length) (hmax : length ≤ 1480)
    (h : length ≤ payload.length) : Keeps lazy R (handleIcmp line resolve source payload length) := by
  refine ⟨fun s hs => ?_⟩
  rcases handleIcmp_run source hlow hmax h s with ⟨-, sum, -, hrun⟩ | ⟨-, ping, hrun⟩
  · rw [hrun]
    refine (Keeps.discard (sendIpv4_keeps hresolve ?_)).yields s hs
    simp [replyTo]
    omega
  · rw [hrun]
    exact .ok hs

private theorem handleProtocol_keeps (hsafe : Safe R)
    (hresolve : ∀ active a, Keeps True (R.with active) (resolve a)) (protocol : UInt8)
    (source destination : IPAddress) (hmax : length ≤ 1480) (h : length ≤ payload.length) :
    Keeps True (R.with active)
      (handleProtocol line resolve protocol source destination payload length) := by
  rw [handleProtocol]
  split
  · exact handleUdp_keeps (hsafe.with active) source destination hmax h
  split
  · exact handleTcp_keeps hsafe hresolve source destination hmax h
  split
  · next hicmp =>
    refine .read (.checksum h) fun sum _ => ?_
    split
    · exact handleIcmp_keeps (hresolve active) source hicmp.2 hmax h
    · exact .pure _
  · exact .pure _

private theorem handleIpv4_keeps (hsafe : Safe R)
    (hresolve : ∀ active a, Keeps True (R.with active) (resolve a)) (hmax : length ≤ 1500)
    (h : length ≤ packet.length) :
    Keeps True (R.with active) (handleIpv4 line resolve packet length) := by
  refine ⟨fun s hs => ?_⟩
  rcases handleIpv4_run h s with ⟨hvalid, pending, -, hrun⟩ | ⟨-, hrun⟩
  · rw [hrun]
    have hheader := hvalid.header
    have hfits := hvalid.fits
    split
    · have hrest : be16At packet 2 - headerLength packet ≤
          (packet.drop (headerLength packet)).length := by
        rw [length_drop]
        omega
      exact (handleProtocol_keeps hsafe hresolve _ _ _ (by omega) hrest).yields s hs
    · exact .ok hs
  · rw [hrun]
    exact .ok hs

private theorem handleFrameWith_keeps (hsafe : Safe R)
    (hresolve : ∀ active a, Keeps True (R.with active) (resolve a)) (hmax : frame.length ≤ 1514) :
    Keeps True (R.with active) (handleFrameWith line resolve frame) := by
  have hrest : frame.length - 14 ≤ (frame.drop 14).length := by rw [length_drop]
  rw [handleFrameWith]
  split
  · exact .pure _
  · refine .bind (.modify fun _ => id) fun _ => ?_
    refine .read (.readBe16 (by omega)) fun etherType _ => ?_
    split
    · exact handleArp_keeps hrest
    split
    · exact handleIpv4_keeps hsafe hresolve (by omega) hrest
    · exact .pure _

/-- A poll. -/
theorem pollWith_keeps {handle : Bytes → NetM Unit}
    (h : ∀ k, ∀ frame ∈ line.arrivals k, Keeps lazy R (handle frame)) :
    Keeps lazy R (pollWith line handle) := by
  apply Keeps.get
  intro s hs
  exact .bind (.set hs) fun _ => .forM (h s.moment)

/-- Every frame that arrives is one that the device can deliver. -/
def Line.Delivers (line : Line) : Prop := ∀ k, ∀ frame ∈ line.arrivals k, frame.length ≤ 1514

/-- A frame, and the frames that are handled while a handler waits for an address. -/
theorem handleFrame_keeps (hsafe : Safe R) (hline : line.Delivers) (depth : Nat) (active : Bool)
    (hmax : frame.length ≤ 1514) : Keeps True (R.with active) (handleFrame line depth frame) := by
  induction depth generalizing active frame with
  | zero => exact .outOfFuel trivial
  | succ depth ih =>
    refine handleFrameWith_keeps hsafe ?_ hmax
    intro active address
    refine resolveArp_keeps (pollWith_keeps fun k frame hframe => ?_) depth address
    exact ih active (hline k frame hframe)

/-- A client in a run of `http_get` or `https_get`, at any point of it. -/
def ReachableClient (c : Tcp.Client) : Prop :=
  ∃ start events s, Tcp.Start start ∧ Tcp.run events start = some s ∧ s.client = c

/-- It has room for what it stores. -/
theorem ReachableClient.room {c : Tcp.Client} (h : ReachableClient c) : Tcp.Room c := by
  obtain ⟨start, events, s, hstart, hrun, rfl⟩ := h
  have hgood : Tcp.Good (fun _ => True) start := by
    cases hstart <;> exact ⟨nofun, fun hne => absurd rfl hne⟩
  have hmeets : Meets Tcp.step (fun _ _ g => g) (fun _ _ _ => True) events start () :=
    meets_of_events (fun _ _ => trivial) start ()
  refine (steps_invariant (I := fun s _ => Tcp.Room s.client ∧ Tcp.Good (fun _ => True) s) ?_
    ⟨hstart.room, hgood⟩ hmeets hrun).1
  rintro s _ e s' ⟨hroom, hgood⟩ - hstep
  obtain ⟨hgood', hprogress⟩ := (Tcp.step_turn hstep).progress hgood fun _ _ => trivial
  exact ⟨hroom.progress hprogress, hgood'⟩

/-- Room is safe to know. -/
theorem room_safe : Safe fun c _ _ _ => c.active = true → Tcp.Room c where
  segment c a d b seg h hactive := by
    have hroom := h hactive
    obtain ⟨r, hr⟩ := hroom.handleSegment seg
    rw [hr]
    exact .ok fun _ => hroom.effect (Tcp.handleSegment_effect hr).1
  resume c a d b point sent h hactive := by
    have hroom := h hactive
    obtain ⟨r, hr⟩ := hroom.resume point sent
    rw [hr]
    exact .ok fun _ => hroom.of_resume hr
  dhcp _ _ _ _ _ _ h _ := h
  call _ _ _ _ _ _ h := h

/-- Every frame that the device can deliver is handled inside the frame and inside the buffers, in
every state whose client is inactive or reachable, whatever arrives while a handler waits. -/
theorem receive_in_bounds {line : Line} (hline : line.Delivers) {frame : Bytes}
    (hframe : frame.length ≤ 1514) {s : Net}
    (hclient : s.client.active = true → ReachableClient s.client) (depth : Nat) :
    InBounds (handleFrame line depth frame s) := by
  have hkeeps := handleFrame_keeps room_safe hline depth s.client.active hframe
  exact (hkeeps.yields s ⟨fun hactive => (hclient hactive).room, rfl⟩).inBounds

/-- A host that waits for a page, with its server in the ARP cache. -/
def waiting : Net :=
  { Net.initial ⟨2, 0, 0, 0, 0, 1⟩ with
    ipAddr := ⟨10, 0, 0, 5⟩
    netmask := ⟨255, 255, 255, 0⟩
    arpCache := fun _ => ⟨⟨10, 0, 0, 2⟩, ⟨2, 0, 0, 0, 0, 2⟩, 0, true⟩
    client := Tcp.pageStart.client
    remoteAddress := ⟨10, 0, 0, 2⟩
    localPort := 49152
    remotePort := 80 }

/-- The server accepts the connection. -/
def synAck : Bytes :=
  [2, 0, 0, 0, 0, 1, 2, 0, 0, 0, 0, 2, 8, 0] ++
    [69, 0, 0, 40, 0, 1, 64, 0, 64, 6, 38, 201, 10, 0, 0, 2, 10, 0, 0, 5] ++
    [0, 80, 192, 0, 0, 0, 0, 100, 0, 0, 0, 8, 80, 18, 32, 0, 187, 15, 0, 0]

/-- The frame is handled as a segment of the connection. -/
theorem receive_in_bounds_synAck :
    (handleFrame .still 2 synAck waiting).toOption.map (·.2.client.synAcknowledged) = some true ∧
      InBounds (handleFrame .still 2 synAck waiting) :=
  ⟨by decide +kernel, receive_in_bounds (fun _ _ h => absurd h not_mem_nil) (by decide)
    (fun _ => ⟨Tcp.pageStart, [], Tcp.pageStart, Tcp.pageStart_start, rfl, rfl⟩) 2⟩

end NasuaOS.Network
