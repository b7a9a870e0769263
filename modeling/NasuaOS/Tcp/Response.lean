import NasuaOS.Tcp.Peer
import NasuaOS.Tcp.Storage
import NasuaOS.Tcp.Transmitting

/-!
# The response of `http_get`

Whatever way the stream of the peer is cut, repeated, reordered and lost, the response holds the
bytes that were accepted, as far as they fit. `http_get` returns a length only when the peer closed
its stream, and then the response is the whole stream. All of this holds also when segments arrive
while a handler sends.
-/

namespace NasuaOS.Tcp

open Base List

variable {isn : UInt32} {data : Bytes} {k n : Nat} {c c' : Client} {s s' : System} {seg : Segment}

/-- The bytes `response[0, response_length)`. -/
def responseBytes (c : Client) : Bytes := (range c.responseLength).map c.response

/-- The response after `k` bytes were accepted. -/
structure Filled (data : Bytes) (c : Client) (k : Nat) : Prop where
  mode : c.streamMode = false
  low : 2 ≤ c.responseCapacity
  high : c.responseCapacity ≤ 0x7FFFFFFF
  length : c.responseLength = min k (c.responseCapacity - 1)
  bytes : Window c.response c.responseCapacity 0 (data.take (min k (c.responseCapacity - 1)))
  overflow : c.overflow = decide (c.responseCapacity - 1 < k)
  queue : c.receiveLength = 0

private theorem Filled.congr (h : Filled data c k) (hsame : c'.receiving = c.receiving) :
    Filled data c' k := by
  have hm : c'.streamMode = c.streamMode := congrArg Receiving.streamMode hsame
  have hc : c'.responseCapacity = c.responseCapacity := congrArg Receiving.responseCapacity hsame
  have hl : c'.responseLength = c.responseLength := congrArg Receiving.responseLength hsame
  have hr : c'.response = c.response := congrArg Receiving.response hsame
  have ho : c'.overflow = c.overflow := congrArg Receiving.overflow hsame
  have hq : c'.receiveLength = c.receiveLength := congrArg Receiving.receiveLength hsame
  refine ⟨hm.trans h.mode, ?_, ?_, ?_, ?_, ?_, hq.trans h.queue⟩
  · rw [hc]
    exact h.low
  · rw [hc]
    exact h.high
  · rw [hl, hc]
    exact h.length
  · rw [hr, hc]
    exact h.bytes
  · rw [ho, hc]
    exact h.overflow

private theorem take_append_payload {payload : Bytes} (hbytes : payload <+: data.drop k) (m : Nat) :
    data.take (min k m) ++ payload.take (m - min k m) = data.take (min (k + payload.length) m) := by
  by_cases hkm : k ≤ m
  · obtain ⟨rest, hrest⟩ := hbytes
    have hmin : min (k + payload.length) m = k + min (m - k) payload.length := by omega
    rw [Nat.min_eq_left hkm, hmin, take_add, ← hrest,
      take_append_of_le_length (Nat.min_le_right _ _), ← take_take, take_length]
  · rw [Nat.min_eq_right (by omega), Nat.sub_self, take_zero, append_nil,
      Nat.min_eq_right (by omega)]

private theorem Filled.store {payload : Bytes} (h : Filled data c k) (hk : k ≤ data.length)
    (hbytes : payload <+: data.drop k) (hstore : storePayload c payload = .ok c') :
    Filled data c' (k + payload.length) := by
  have hlen : (data.take (min k (c.responseCapacity - 1))).length = c.responseLength := by
    rw [length_take, h.length]
    omega
  have hroom : c.responseLength ≤ c.responseCapacity - 1 := by
    rw [h.length]
    exact Nat.min_le_right _ _
  obtain ⟨response, hafter, hwindow⟩ :=
    storePayload_response h.mode h.bytes hlen h.low h.high hroom payload
  rw [hafter, Except.ok.injEq] at hstore
  rw [h.length, take_append_payload hbytes] at hwindow
  subst hstore
  refine ⟨h.mode, h.low, h.high, ?_, hwindow, ?_, h.queue⟩
  · change c.responseLength + _ = min (k + payload.length) (c.responseCapacity - 1)
    rw [length_take, h.length]
    omega
  · change (c.overflow || _) = decide (c.responseCapacity - 1 < k + payload.length)
    rw [h.overflow, length_take, h.length, ← Bool.decide_or]
    apply decide_eq_decide.mpr
    omega

private theorem Filled.effect (h : Filled data c k) (hreached : Reached isn data c k)
    (hseg : Current isn data k seg) (heffect : Effect c seg c' n) : Filled data c' (k + n) := by
  cases heffect with
  | quiet hsame => exact h.congr hsame
  | opened _ _ hafter =>
    apply Filled.congr (c := { c with synAcknowledged := true, nextRemoteSequence := _ }) _ hafter
    exact ⟨h.mode, h.low, h.high, h.length, h.bytes, h.overflow, h.queue⟩
  | stored c₁ hopen hne hnext hsame hstore =>
    obtain ⟨-, hbytes⟩ := hreached.payload hseg hopen hne hnext
    exact (h.congr hsame).store hreached.bound hbytes hstore
  | closed _ _ _ hafter =>
    apply Filled.congr (c := { c with peerClosed := true, nextRemoteSequence := _ }) _ hafter
    exact ⟨h.mode, h.low, h.high, h.length, h.bytes, h.overflow, h.queue⟩

private theorem Filled.responseBytes_eq (h : Filled data c k) (hk : k ≤ data.length) :
    responseBytes c = data.take c.responseLength := by
  apply ext_getElem?
  intro i
  rw [responseBytes, getElem?_map, getElem?_take]
  by_cases hi : i < c.responseLength
  · have hmin := h.length
    have hlt : i < data.length := by omega
    have hbyte := h.bytes i data[i] (by
      rw [getElem?_take, ← h.length, if_pos hi, getElem?_eq_getElem hlt])
    rw [Nat.zero_add, Nat.mod_eq_of_lt (by omega)] at hbyte
    rw [getElem?_range hi, if_pos hi, getElem?_eq_getElem hlt]
    exact congrArg some hbyte
  · rw [if_neg hi, getElem?_eq_none (by rw [length_range]; omega)]
    rfl

/-- What `http_get` remembers is what it returns by, unless the connection was reset. -/
def Final (c : Client) (o : Outcome) : Prop :=
  o.timedOut = false → c.reset = false →
    c.peerClosed = true ∧ o.overflow = c.overflow ∧ o.responseLength = c.responseLength

/-- Places of `http_get`, with what is known there about the end of the stream. -/
def HttpMain (c : Client) (clock : Nat) : Main → Prop
  | .ready (.httpTest _) => True
  | .ready (.httpEnd l) =>
    l.timeoutTicks ≤ clock - l.startTick ∨ c.reset = true ∨ c.peerClosed = true
  | .polling (.http _) => True
  | .sending _ (.httpSyn _ _) => True
  | .sending _ (.httpRequest _ _) => True
  | .sending _ (.httpRequestAgain _ _) => True
  | .sending _ (.httpFin o) => Final c o
  | .returned v =>
    0 < v → c.peerClosed = true ∧ c.overflow = false ∧ v = (c.responseLength : Int)
  | _ => False

variable {clock now : Nat} {l : HttpLocals} {o : Outcome} {m : Main}

private theorem Reached.frozen (h : Reached isn data c k) (hseg : Current isn data k seg)
    (heffect : Effect c seg c' n) (hclosed : c.peerClosed = true) : c'.receiving = c.receiving := by
  have hne : c.peerClosed ≠ false := by
    rw [hclosed]
    exact Bool.noConfusion
  cases heffect with
  | quiet hsame => exact hsame
  | opened _ hnew _ => exact absurd (h.fresh hnew).2.1 hne
  | stored _ hopen hp hnext _ _ => exact absurd (h.payload hseg hopen hp hnext).1 hne
  | closed hopen hfin hnext _ => exact absurd (h.fin hseg hopen hfin hnext).1 hne

private theorem HttpMain.handler (h : HttpMain c clock m) (hreset : c.reset = true → c'.reset = true)
    (hclosed : c.peerClosed = true → c'.receiving = c.receiving) : HttpMain c' clock m := by
  have hkept : c.peerClosed = true → c'.peerClosed = true ∧ c'.overflow = c.overflow ∧
      c'.responseLength = c.responseLength := by
    intro hpeer
    have hsame := hclosed hpeer
    exact ⟨(congrArg Receiving.peerClosed hsame).trans hpeer, congrArg Receiving.overflow hsame,
      congrArg Receiving.responseLength hsame⟩
  match m with
  | .ready (.httpTest _) | .polling (.http _) | .sending _ (.httpSyn _ _)
  | .sending _ (.httpRequest _ _) | .sending _ (.httpRequestAgain _ _) => trivial
  | .ready (.httpEnd l) => exact h.imp_right fun h => h.imp hreset fun hp => (hkept hp).1
  | .sending _ (.httpFin o) =>
    intro htime hno
    have hbefore : c.reset = false := by
      apply Bool.eq_false_iff.mpr
      intro hset
      rw [hreset hset] at hno
      cases hno
    obtain ⟨hp, ho, hl⟩ := h htime hbefore
    obtain ⟨hp', ho', hl'⟩ := hkept hp
    exact ⟨hp', ho.trans ho'.symm, hl.trans hl'.symm⟩
  | .returned v =>
    intro hv
    obtain ⟨hp, ho, hl⟩ := h hv
    obtain ⟨hp', ho', hl'⟩ := hkept hp
    exact ⟨hp', ho'.trans ho, by rw [hl, hl']⟩

private theorem httpNext_main (c : Client) (l : HttpLocals) (clock : Nat) :
    HttpMain (httpNext c l).1 clock (httpNext c l).2 := by
  rw [httpNext]
  split
  · next hclosed => exact .inr (.inr hclosed)
  · trivial

private theorem httpFail_main (c : Client) (l : HttpLocals) (clock : Nat) :
    HttpMain (httpFail c l).1 clock (httpFail c l).2 :=
  .inr (.inl rfl)

private theorem httpReturn_main (h : Final c o) (clock : Nat) :
    HttpMain (httpReturn c o).1 clock (httpReturn c o).2 := by
  intro hv
  split at hv
  · cases hv
  split at hv
  · cases hv
  split at hv
  · split at hv
    · cases hv
    · cases hv
  · next hover htime hother =>
    simp only [Bool.not_eq_true] at hover htime
    simp only [Bool.or_eq_true, not_or, Bool.not_eq_true] at hother
    obtain ⟨hp, ho, hl⟩ := h htime hother.1.1
    refine ⟨hp, ho ▸ hover, ?_⟩
    simp only [hover, htime, hother.1.1, hother.1.2, hother.2, Bool.false_or, Bool.false_eq_true,
      if_false]
    rw [hl]
    rfl

private theorem runSent_main {out : Outgoing} {p : Sending} (h : HttpMain c clock (.sending out p))
    (sent : Bool) : HttpMain (runSent c sent p).1 clock (runSent c sent p).2 := by
  cases p with
  | httpSyn l at' | httpRequest l at' | httpRequestAgain l at' =>
    rw [runSent]
    split
    · exact httpNext_main _ _ _
    · exact httpFail_main _ _ _
  | httpFin o =>
    rw [runSent]
    apply httpReturn_main
    split <;> exact h
  | connectSyn | chunk | chunkAgain | tlsFin => exact h.elim

private theorem runPolled_main {p : Polling} (h : HttpMain c clock (.polling p)) (now : Nat) :
    HttpMain (runPolled c now p).1 now (runPolled c now p).2 := by
  cases p with
  | http l =>
    rw [runPolled, httpBody]
    repeat' split
    · exact httpFail_main _ _ _
    · trivial
    · exact httpNext_main _ _ _
    · exact httpFail_main _ _ _
    · trivial
    · trivial
    · exact httpNext_main _ _ _
  | connect | read | write => exact h.elim

private theorem runReady_main {p : Ready} (h : HttpMain c clock (.ready p)) (hclock : clock ≤ now) :
    HttpMain (runReady c now p).1.1 now (runReady c now p).1.2 := by
  cases p with
  | httpTest l =>
    change HttpMain c now (if _ then _ else _)
    split
    · trivial
    · next hstop =>
      by_cases hreset : c.reset = true
      · exact Or.inr (Or.inl hreset)
      · apply Or.inl
        simp only [hreset, Bool.not_false, true_and, Nat.not_lt] at hstop
        exact hstop
  | httpEnd l =>
    have hfinal : Final c ⟨decide (l.timeoutTicks ≤ now - l.startTick), c.synAcknowledged,
        c.overflow, c.responseLength⟩ := by
      intro htime hreset
      have htime : ¬ l.timeoutTicks ≤ now - l.startTick := of_decide_eq_false htime
      rcases h with hlate | hset | hclosed
      · omega
      · rw [hreset] at hset
        cases hset
      · exact ⟨hclosed, rfl, rfl⟩
    change HttpMain (httpClose c _).1 now (httpClose c _).2
    rw [httpClose]
    split
    · exact hfinal
    · exact httpReturn_main hfinal now
  | connectTest | connectEnd | readTest | writeTest | chunkSent | waitTest => exact h.elim

/-- The invariant of `http_get`. -/
structure HttpRun (isn : UInt32) (data : Bytes) (s : System) (k : Nat) : Prop where
  good : Good (FromPeer isn data) s
  reached : Reached isn data s.client k
  filled : Filled data s.client k
  main : HttpMain s.client s.clock s.main

private theorem HttpRun.turn_main {e : Event} (h : HttpRun isn data s k) (hturn : Turn s e s')
    (hfrozen : s.client.peerClosed = true → s'.client.receiving = s.client.receiving) :
    HttpMain s'.client s'.clock s'.main := by
  cases hturn with
  | @arrived seg r _ hr =>
    refine h.main.handler ?_ hfrozen
    intro hreset
    have hafter := congrArg Transmitting.reset (handleSegment_transmitting hr).1
    exact hafter.trans (by rw [hreset]; rfl)
  | @resumed p rest ok r _ hr =>
    refine h.main.handler ?_ hfrozen
    intro hreset
    have hafter := congrArg Transmitting.reset (resume_transmitting hr)
    refine hafter.trans ?_
    split <;> exact hreset
  | @sent out p ok _ hmain =>
    have hm := h.main
    rw [hmain] at hm
    exact runSent_main hm ok
  | @ready p now hclock _ hmain =>
    have hm := h.main
    rw [hmain] at hm
    exact runReady_main hm hclock
  | @polled p now _ _ hmain =>
    have hm := h.main
    rw [hmain] at hm
    exact runPolled_main hm now
  | engine _ hmain =>
    have hm := h.main
    rw [hmain] at hm
    exact hm.elim

/-- Every turn keeps the invariant. -/
theorem HttpRun.step {e : Event} (h : HttpRun isn data s k) (hdata : data.length < 2 ^ 31)
    (harrive : ∀ seg, e = .arrive seg → FromPeer isn data seg) (hstep : step s e = some s') :
    HttpRun isn data s' (k + acceptedIn s e) := by
  have hturn := step_turn hstep
  obtain ⟨hgood, hprogress⟩ := hturn.progress h.good harrive
  cases hprogress with
  | segment seg hseg heffect _ =>
    have hcurrent : Current isn data k seg :=
      (h.good.turnSegment harrive hseg).current (by omega) h.reached.bound
    exact ⟨hgood, h.reached.effect hcurrent heffect, h.filled.effect h.reached hcurrent heffect,
      h.turn_main hturn (h.reached.frozen hcurrent heffect)⟩
  | quiet hsame hzero _ =>
    rw [hzero]
    exact ⟨hgood, h.reached.congr hsame, h.filled.congr hsame, h.turn_main hturn fun _ => hsame⟩
  | read length hne hafter hzero _ =>
    exact absurd h.filled.queue hne

/-- A call of `http_get` starts with the invariant. -/
theorem Start.httpRun (h : Start s) (hmode : s.client.streamMode = false) :
    HttpRun isn data s 0 := by
  cases h with
  | http initialSequence response responseCapacity request now timeoutTicks hlow hhigh =>
    refine ⟨⟨nofun, fun hne => absurd rfl hne⟩, Reached.start rfl rfl rfl, ?_, trivial⟩
    refine ⟨rfl, hlow, hhigh, (Nat.zero_min _).symm, ?_, rfl, rfl⟩
    rw [Nat.zero_min, take_zero]
    exact Window.nil _ _ _
  | https => cases hmode

/-- What holds when `http_get` has accepted `k` bytes of the stream. -/
structure Intact (isn : UInt32) (data : Bytes) (s : System) (k : Nat) : Prop where
  fits : s.client.responseLength ≤ s.client.responseCapacity - 1
  bytes : responseBytes s.client <+: data
  unopened : s.client.synAcknowledged = false → s.client.nextRemoteSequence = 0
  next : s.client.synAcknowledged = true → s.client.nextRemoteSequence =
    isn + 1 + UInt32.ofNat (k + if s.client.peerClosed then 1 else 0)
  overflow : s.client.overflow = true ↔ s.client.responseLength < k
  /-- Every segment can be handled inside the response buffer. -/
  handles : ∀ seg, ∃ r, handleSegment s.client seg = .ok r
  resumes : ∀ p ∈ s.stack, ∀ ok, ∃ r, resume p.next ok s.client = .ok r
  complete : ∀ v, s.main = .returned v → 0 < v →
    v = data.length ∧ responseBytes s.client = data ∧ s.client.peerClosed = true

private theorem Filled.room (h : Filled data c k) : Room c := by
  refine ⟨?_, fun _ => ⟨h.low, h.high, ?_⟩⟩
  · rw [h.queue]
    exact Nat.zero_le _
  · rw [h.length]
    exact Nat.min_le_right _ _

private theorem HttpRun.intact (h : HttpRun isn data s k) : Intact isn data s k := by
  have hbytes := h.filled.responseBytes_eq h.reached.bound
  have hlength := h.filled.length
  have hover := h.filled.overflow
  refine ⟨?_, ?_, fun hnew => (h.reached.fresh hnew).2.2, ?_, ?_, h.filled.room.handleSegment,
    fun p _ => h.filled.room.resume p.next, ?_⟩
  · rw [hlength]
    exact Nat.min_le_right _ _
  · rw [hbytes]
    exact take_prefix _ _
  · intro hopen
    rw [h.reached.next hopen]
    cases s.client.peerClosed <;> rfl
  · rw [hover, decide_eq_true_iff]
    omega
  · intro v hv hpos
    have hmain := h.main
    rw [hv] at hmain
    obtain ⟨hclosed, hfits, hvalue⟩ := hmain hpos
    have hk := h.reached.closed hclosed
    rw [hover, decide_eq_false_iff_not] at hfits
    have hall : s.client.responseLength = data.length := by omega
    refine ⟨by rw [hvalue, hall], ?_, hclosed⟩
    rw [hbytes, hall, take_length]

/-- A call of `http_get` that waits one tick. -/
def pageStart : System :=
  ⟨newClient 7 false (fun _ => 0) 16, [], .ready (.httpTest ⟨0, 1, 0, 0, 0, 0, false, [71]⟩), 0, [],
    []⟩

/-- A page of one byte. -/
def pageEvents : List Event :=
  [.run 0, .run 0, .sent true, .run 0, .arrive ⟨0x12, 100, 8, 1460, []⟩, .sent true, .run 0,
    .sent true, .run 0, .arrive ⟨0x11, 101, 9, 1460, [65]⟩, .sent true, .sent true, .sent true,
    .run 0, .run 0]

/-- The call is one that gets as far as a connection. -/
theorem pageStart_start : Start pageStart :=
  .http 7 (fun _ => 0) 16 [71] 0 1 (by decide) (by decide) (by decide) (by decide) (by decide)

private theorem pageEvents_fromPeer :
    ∀ seg, Event.arrive seg ∈ pageEvents → FromPeer 100 [65] seg := by
  intro seg hseg
  simp only [pageEvents, mem_cons, not_mem_nil, or_false, Event.arrive.injEq,
    reduceCtorEq, false_or] at hseg
  rcases hseg with rfl | rfl
  · exact .inr ⟨0, by decide, by decide, by decide, by decide, by decide⟩
  · exact .inr ⟨0, by decide, by decide, by decide, by decide, by decide⟩

end NasuaOS.Tcp
