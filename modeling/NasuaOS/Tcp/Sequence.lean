import NasuaOS.Tcp.Answers
import NasuaOS.Tcp.Response

/-!
# The sequence numbers of the client

In every run of orderly turns the numbers that are taken behind the SYN form a list of octets, and
`next_sequence` stands at its end. What the main program sends again is what the list has at that
place. So no number is used for two octets, and the counter never goes back.
-/

namespace NasuaOS.Tcp

open Base List

/-- What the sends in progress are known by. -/
structure Numbering where
  streamMode : Bool
  requestSent : Bool
  initialSequence : UInt32
  nextSequence : UInt32

/-- What the main program sends by. -/
structure View extends Numbering where
  synAcknowledged : Bool
  peerMss : Nat
  requestSequence : UInt32

/-- What the main program sends by, of a client. -/
def Client.view (c : Client) : View where
  streamMode := c.streamMode
  requestSent := c.requestSent
  initialSequence := c.initialSequence
  nextSequence := c.nextSequence
  synAcknowledged := c.synAcknowledged
  peerMss := c.peerMss
  requestSequence := c.requestSequence

variable {c c' : Client} {v : View} {n : Numbering} {s s' : System} {begun : Bool}
  {numbers : List Octet} {streamed now deadline : Nat} {log : SendLog} {o : Outgoing} {iss : UInt32}

/-! ### Sends of the main program -/

/-- A SYN in hand. -/
structure SynInHand (n : Numbering) (o : Outgoing) : Prop where
  flags : o.flags = 0x02
  sequence : o.sequence = n.initialSequence
  payload : o.payload = []

/-- Data in hand. -/
structure DataInHand (sequence : UInt32) (payload : Bytes) (o : Outgoing) : Prop where
  flags : o.flags = 0x18
  sequence : o.sequence = sequence
  payload : o.payload = payload

/-- A FIN in hand: its number is the next one, or that of a FIN. -/
structure FinInHand (iss : UInt32) (numbers : List Octet) (o : Outgoing) : Prop where
  flags : o.flags = 0x11
  payload : o.payload = []
  number : ∃ t, o.sequence = position iss t ∧ (t = numbers.length ∨ numbers[t]? = some .fin)

/-- A place of `http_get` in its loop. -/
structure HttpAt (n : Numbering) (begun : Bool) (numbers : List Octet) (streamed : Nat)
    (l : HttpLocals) : Prop where
  mode : n.streamMode = false
  started : begun = decide (l.synAttempts ≠ 0)
  sent : l.requestSent = n.requestSent
  size : l.request.length ≤ tcpMaxPayload
  unsent : n.requestSent = false → numbers = [] ∧ streamed = 0
  request : n.requestSent = true → ∀ i, i < l.request.length → numbers[i]? = some (.data i)

/-- A chunk that went out stands in the list. -/
def ChunkAt (n : Numbering) (numbers : List Octet) (streamed : Nat) (w : WriteLocals) : Prop :=
  ∃ t, w.segmentSequence = position n.initialSequence t ∧
    ∀ i, i < w.chunk.length → numbers[t + i]? = some (.data (streamed - w.chunk.length + i))

/-- The connection of the TLS engine. -/
structure EngineAt (n : Numbering) (begun : Bool) : Prop where
  mode : n.streamMode = true
  started : begun = true

/-- What is known at each place of the main program. -/
def MainSends (n : Numbering) (begun : Bool) (numbers : List Octet) (streamed : Nat) : Main → Prop
  | .ready (.httpTest l) => HttpAt n begun numbers streamed l
  | .ready (.httpEnd _) => True
  | .polling (.http l) => HttpAt n begun numbers streamed l
  | .sending o (.httpSyn l _) => HttpAt n begun numbers streamed l ∧ SynInHand n o
  | .sending o (.httpRequest l _) => HttpAt n begun numbers streamed l ∧ n.requestSent = false ∧
      begun = true ∧ DataInHand (position n.initialSequence 0) l.request o
  | .sending o (.httpRequestAgain l _) => HttpAt n begun numbers streamed l ∧
      n.requestSent = true ∧ DataInHand (position n.initialSequence 0) l.request o
  | .sending o (.httpFin _) => begun = true ∧ FinInHand n.initialSequence numbers o
  | .returned _ => True
  | .ready (.connectTest l) => n.streamMode = true ∧ begun = decide (l.synAttempts ≠ 0)
  | .ready (.connectEnd _) => n.streamMode = true
  | .polling (.connect l) => n.streamMode = true ∧ begun = decide (l.synAttempts ≠ 0)
  | .sending o (.connectSyn l _) =>
    n.streamMode = true ∧ begun = decide (l.synAttempts ≠ 0) ∧ SynInHand n o
  | .engine _ => EngineAt n begun
  | .ready (.readTest _ _) => EngineAt n begun
  | .polling (.read _ _) => EngineAt n begun
  | .ready (.writeTest _ _ _) => EngineAt n begun
  | .sending o (.chunk w) => EngineAt n begun ∧ DataInHand n.nextSequence w.chunk o ∧
      w.segmentSequence = n.nextSequence ∧ w.chunk.length ≤ tcpMaxPayload
  | .ready (.chunkSent w) => EngineAt n begun ∧ ChunkAt n numbers streamed w
  | .ready (.waitTest w) => EngineAt n begun ∧ ChunkAt n numbers streamed w
  | .polling (.write w) => EngineAt n begun ∧ ChunkAt n numbers streamed w
  | .sending o (.chunkAgain w _) => EngineAt n begun ∧ ChunkAt n numbers streamed w ∧
      DataInHand w.segmentSequence w.chunk o
  | .sending o (.tlsFin _) => begun = true ∧ FinInHand n.initialSequence numbers o

/-- The counter stands behind the numbers that were taken. -/
structure Counted (v : View) (begun : Bool) (numbers : List Octet) : Prop where
  next : begun = true → v.nextSequence = position v.initialSequence numbers.length
  unsent : begun = false → v.synAcknowledged = false ∧ numbers = [] ∧
    v.nextSequence = v.initialSequence
  request : v.requestSequence = v.initialSequence + 1
  mss : v.peerMss ≤ tcpMaxPayload

private theorem Counted.started (h : Counted v begun numbers) (hopen : v.synAcknowledged = true) :
    begun = true := by
  cases hb : begun with
  | true => rfl
  | false =>
    rw [(h.unsent hb).1] at hopen
    cases hopen

private theorem Counted.finInHand (h : Counted c.view begun numbers) (hstarted : begun = true) :
    FinInHand c.initialSequence numbers (outgoing c 0x11 c.nextSequence []) :=
  ⟨rfl, rfl, numbers.length, h.next hstarted, .inl rfl⟩

/-- A turn of the main program that takes no number. -/
def Quiet (c : Client) (begun : Bool) (numbers : List Octet) (streamed : Nat)
    (r : Client × Main) : Prop :=
  r.1.view = c.view ∧ MainSends c.view.toNumbering begun numbers streamed r.2

variable {l : HttpLocals} {p : Sending}

private theorem httpNext_quiet (h : HttpAt c.view.toNumbering begun numbers streamed l) :
    Quiet c begun numbers streamed (httpNext c l) := by
  rw [httpNext]
  split
  · exact ⟨rfl, trivial⟩
  · exact ⟨rfl, h⟩

private theorem httpFail_quiet (c : Client) (l : HttpLocals) :
    Quiet c begun numbers streamed (httpFail c l) := ⟨rfl, trivial⟩

private theorem runPolled_quiet {p : Polling}
    (h : MainSends c.view.toNumbering begun numbers streamed (.polling p))
    (hcounted : Counted c.view begun numbers) :
    Quiet c begun numbers streamed (runPolled c now p) := by
  cases p with
  | http l =>
    rw [runPolled, httpBody]
    split
    · split
      · split
        · exact httpFail_quiet c l
        · exact ⟨rfl, h, rfl, rfl, rfl⟩
      · exact httpNext_quiet h
    · next hopen =>
      have hsyn : c.synAcknowledged = true := by simpa using hopen
      have hstarted := hcounted.started hsyn
      split
      · next hunsent =>
        split
        · exact httpFail_quiet c l
        · have hrequest : c.requestSent = false := h.sent.symm.trans (by simpa using hunsent)
          -- no number is taken yet, so setting the counter to `request_sequence` leaves it
          have hnext : c.requestSequence = c.nextSequence := by
            have hafter := hcounted.next hstarted
            rw [(h.unsent hrequest).1] at hafter
            exact hcounted.request.trans ((UInt32.add_zero _).symm.trans hafter.symm)
          refine ⟨?_, h, hrequest, hstarted, rfl, ?_, rfl⟩
          · simp only [Client.view, hnext]
          · exact hcounted.request.trans (UInt32.add_zero _).symm
      · next hsent =>
        split
        · have hrequest : c.requestSent = true := h.sent.symm.trans (by simpa using hsent)
          exact ⟨rfl, h, hrequest, rfl, hcounted.request.trans (UInt32.add_zero _).symm, rfl⟩
        · exact httpNext_quiet h
  | connect l =>
    rw [runPolled, connectBody]
    split
    · split
      · exact ⟨rfl, h.1⟩
      · exact ⟨rfl, h.1, h.2, rfl, rfl, rfl⟩
    · exact ⟨rfl, h⟩
  | read deadline length => exact ⟨rfl, h⟩
  | write w =>
    rw [runPolled, waitBody]
    split
    · exact ⟨rfl, h.1⟩
    · split
      · split
        · exact ⟨rfl, h.1⟩
        · exact ⟨rfl, h.1, h.2, rfl, rfl, rfl⟩
      · exact ⟨rfl, h⟩

private theorem runReady_quiet {p : Ready}
    (h : MainSends c.view.toNumbering begun numbers streamed (.ready p))
    (hcounted : Counted c.view begun numbers) :
    Quiet c begun numbers streamed (runReady c now p).1 := by
  cases p with
  | httpTest l =>
    refine ⟨rfl, ?_⟩
    change MainSends _ _ _ _ (if _ then _ else _)
    split
    · exact h
    · trivial
  | httpEnd l =>
    change Quiet c begun numbers streamed (httpClose c _)
    rw [httpClose]
    split
    · next hopen =>
      rw [Bool.and_eq_true] at hopen
      have hstarted := hcounted.started hopen.1
      exact ⟨rfl, hstarted, hcounted.finInHand hstarted⟩
    · exact ⟨rfl, trivial⟩
  | connectTest l =>
    refine ⟨rfl, ?_⟩
    change MainSends _ _ _ _ (if _ then _ else _)
    split
    · exact h
    · exact h.1
  | connectEnd l =>
    rw [runReady]
    split
    · next hopen => exact ⟨rfl, h, hcounted.started hopen⟩
    · exact ⟨rfl, trivial⟩
  | readTest deadline length =>
    rw [runReady]
    split
    · split
      · exact ⟨rfl, h⟩
      · exact ⟨rfl, h⟩
    · exact ⟨rfl, h⟩
  | writeTest deadline buffer written =>
    change Quiet c begun numbers streamed (writeNext c deadline buffer written now)
    rw [writeNext]
    split
    · split
      · exact ⟨rfl, h⟩
      · refine ⟨rfl, h, ⟨rfl, rfl, rfl⟩, rfl, ?_⟩
        exact Nat.le_trans (length_take_le _ _) hcounted.mss
    · exact ⟨rfl, h⟩
  | chunkSent w => exact ⟨rfl, h⟩
  | waitTest w =>
    change Quiet c begun numbers streamed (waitNext c w now)
    rw [waitNext]
    split
    · exact ⟨rfl, h.1⟩
    · split
      · exact ⟨rfl, h.1⟩
      · exact ⟨rfl, h⟩

private theorem runEngine_quiet
    (h : MainSends c.view.toNumbering begun numbers streamed (.engine deadline))
    (hcounted : Counted c.view begun numbers) (call : EngineCall) :
    Quiet c begun numbers streamed (runEngine c deadline call) := by
  cases call with
  | read length | write buffer =>
    rw [runEngine]
    split <;> exact ⟨rfl, h⟩
  | abort result => exact ⟨rfl, trivial⟩
  | finish result =>
    rw [runEngine, tlsClose]
    split
    · exact ⟨rfl, h.started, hcounted.finInHand h.started⟩
    · exact ⟨rfl, trivial⟩

private theorem runSent_quiet
    (h : MainSends c.view.toNumbering begun numbers streamed (.sending o p)) :
    Quiet c begun numbers streamed (runSent c false p) := by
  cases p with
  | httpSyn l now | httpRequest l now | httpRequestAgain l now => exact httpFail_quiet c l
  | httpFin o | tlsFin result => exact ⟨rfl, trivial⟩
  | connectSyn l now | chunk w | chunkAgain w now => exact ⟨rfl, h.1⟩

/-- A send that succeeds: the numbers it takes, and where the main program goes on. -/
structure Takes (c : Client) (begun : Bool) (numbers : List Octet) (streamed : Nat) (o : Outgoing)
    (p : Sending) (added : List Octet) (r : Client × Main) : Prop where
  length : added.length = newBytes p + (o.flags &&& 1 != 0).toNat
  numbered : Numbered c.initialSequence (numbers ++ added) (octets o (placeOf streamed p))
  counted : Counted r.1.view (begun || o.flags == 0x02) (numbers ++ added)
  main : MainSends r.1.view.toNumbering (begun || o.flags == 0x02) (numbers ++ added)
    (streamed + newBytes p) r.2
  advances : Advances c.nextSequence r.1.nextSequence
  initial : r.1.initialSequence = c.initialSequence

private theorem Advances.one (n : UInt32) : Advances n (n + 1) := ⟨1, by decide, rfl⟩

private theorem FinInHand.numbered (h : FinInHand iss numbers o) (place : Nat) :
    Numbered iss (numbers ++ [.fin]) (octets o place) := by
  obtain ⟨t, hsequence, hnumber⟩ := h.number
  intro n a hn
  rw [octets_fin h.flags h.payload, mem_singleton] at hn
  cases hn
  refine .inr ⟨t, ?_, hsequence⟩
  rcases hnumber with rfl | hfin
  · exact getElem?_concat_length
  · have hlt := (List.getElem?_eq_some_iff.mp hfin).1
    rwa [getElem?_append_left hlt]

private theorem SynInHand.numbered (h : SynInHand c.view.toNumbering o) (place : Nat) :
    Numbered c.initialSequence numbers (octets o place) := by
  intro n a hn
  rw [octets_syn h.flags h.payload, mem_singleton] at hn
  cases hn
  exact .inl ⟨rfl, h.sequence⟩

private theorem Counted.syn (h : Counted c.view begun numbers) {attempts : Nat}
    (hbegun : begun = decide (attempts ≠ 0)) {next : UInt32}
    (hnext : next = if attempts = 0 then c.initialSequence + 1 else c.nextSequence) :
    Counted ({ c with nextSequence := next }).view true numbers ∧ Advances c.nextSequence next := by
  have hafter : next = position c.initialSequence numbers.length ∧ Advances c.nextSequence next := by
    rw [hnext]
    split
    · next hzero =>
      have hfalse : begun = false := by rw [hbegun, hzero]; rfl
      obtain ⟨-, hnumbers, hinitial⟩ := h.unsent hfalse
      have hinitial : c.nextSequence = c.initialSequence := hinitial
      rw [hnumbers, hinitial]
      exact ⟨(UInt32.add_zero _).symm, Advances.one _⟩
    · next hzero =>
      have htrue : begun = true := by rw [hbegun]; exact decide_eq_true hzero
      exact ⟨h.next htrue, Advances.refl _⟩
  exact ⟨⟨fun _ => hafter.1, nofun, h.request, h.mss⟩, hafter.2⟩

private theorem httpNext_fst (c : Client) (l : HttpLocals) : (httpNext c l).1 = c := by
  rw [httpNext]
  split <;> rfl

private theorem Takes.syn {attempts : Nat} {r : Client × Main} (hp : newBytes p = 0)
    (hsyn : SynInHand c.view.toNumbering o) (hcounted : Counted c.view begun numbers)
    (hbegun : begun = decide (attempts ≠ 0)) (hr : r.1 = { c with
      nextSequence := if attempts = 0 then c.initialSequence + 1 else c.nextSequence })
    (hmain : MainSends r.1.view.toNumbering true numbers streamed r.2) :
    Takes c begun numbers streamed o p [] r := by
  obtain ⟨hafter, hadvances⟩ := hcounted.syn hbegun rfl
  have htrue : (begun || o.flags == 0x02) = true := by rw [hsyn.flags]; exact Bool.or_true begun
  refine ⟨?_, ?_, ?_, ?_, hr ▸ hadvances, by rw [hr]⟩
  · rw [hsyn.flags, hp]
    rfl
  · rw [append_nil]
    exact hsyn.numbered _
  · rw [htrue, append_nil, hr]
    exact hafter
  · rw [htrue, append_nil, hp]
    exact hmain

private theorem Takes.again {r : Client × Main} {t : Nat} {payload : Bytes} (hp : newBytes p = 0)
    (hdata : DataInHand (position c.initialSequence t) payload o)
    (hbytes : ∀ i, i < payload.length → numbers[t + i]? = some (.data (placeOf streamed p + i)))
    (hcounted : Counted c.view begun numbers) (hr : r.1 = c)
    (hmain : MainSends c.view.toNumbering begun numbers streamed r.2) :
    Takes c begun numbers streamed o p [] r := by
  have hbegun : (begun || o.flags == 0x02) = begun := by rw [hdata.flags]; exact Bool.or_false begun
  refine ⟨?_, ?_, ?_, ?_, hr ▸ Advances.refl _, by rw [hr]⟩
  · rw [hdata.flags, hp]
    rfl
  · rw [append_nil]
    refine numbered_data hdata.flags hdata.sequence ?_
    rw [hdata.payload]
    exact hbytes
  · rw [hbegun, append_nil, hr]
    exact hcounted
  · rw [hbegun, append_nil, hp, hr]
    exact hmain

private theorem Counted.fin (h : Counted c.view begun numbers) (hstarted : begun = true) :
    c.nextSequence + 1 = position c.initialSequence (numbers ++ [Octet.fin]).length := by
  have hnext : c.nextSequence = position c.initialSequence numbers.length := h.next hstarted
  rw [length_append, hnext]
  exact position_add _ _ 1

private theorem Takes.fin {r : Client × Main} (hp : newBytes p = 0)
    (h : begun = true ∧ FinInHand c.initialSequence numbers o)
    (hcounted : Counted c.view begun numbers)
    (hr : r.1.view = { c.view with nextSequence := c.nextSequence + 1 })
    (hmain : ∀ n begun numbers streamed, MainSends n begun numbers streamed r.2) :
    Takes c begun numbers streamed o p [.fin] r := by
  obtain ⟨hstarted, hfin⟩ := h
  have hnext := hcounted.fin hstarted
  subst hstarted
  have hsequence : r.1.nextSequence = c.nextSequence + 1 := congrArg (·.nextSequence) hr
  refine ⟨?_, hfin.numbered _, ?_, hmain .., hsequence ▸ Advances.one _,
    congrArg (·.initialSequence) hr⟩
  · rw [hfin.flags, hp]
    rfl
  · rw [hr]
    exact ⟨fun _ => hnext, nofun, hcounted.request, hcounted.mss⟩

private theorem length_dataOctets (first count : Nat) : (dataOctets first count).length = count := by
  rw [dataOctets, length_map, length_range]

private theorem httpRequest_takes
    (h : MainSends c.view.toNumbering begun numbers streamed (.sending o (.httpRequest l now)))
    (hcounted : Counted c.view begun numbers) :
    Takes c begun numbers streamed o (.httpRequest l now) (dataOctets 0 l.request.length)
      (runSent c true (.httpRequest l now)) := by
  obtain ⟨hat, hrequest, hstarted, hdata⟩ := h
  obtain ⟨hnumbers, hstreamed⟩ := hat.unsent hrequest
  have hnext := hcounted.next hstarted
  subst hnumbers hstreamed hstarted
  have hnext : c.nextSequence = position c.initialSequence 0 := hnext
  have hplace : ∀ i, i < l.request.length →
      (dataOctets 0 l.request.length)[i]? = some (.data i) := by
    intro i hi
    have hget := getElem?_append_dataOctets [] 0 hi
    rwa [nil_append, length_nil, Nat.zero_add] at hget
  rw [runSent, if_pos rfl]
  refine ⟨?_, ?_, ?_, ?_, ?_, ?_⟩
  · rw [hdata.flags, length_dataOctets]
    rfl
  · rw [nil_append]
    refine numbered_data hdata.flags hdata.sequence ?_
    rw [hdata.payload]
    intro i hi
    change _ = some (Octet.data (0 + i))
    rw [Nat.zero_add]
    exact hplace i hi
  · rw [httpNext_fst, nil_append]
    refine ⟨fun _ => ?_, by simp, hcounted.request, hcounted.mss⟩
    rw [length_dataOctets]
    change c.nextSequence + _ = position c.initialSequence _
    rw [hnext, position_add, Nat.zero_add]
  · rw [httpNext_fst, nil_append]
    refine (httpNext_quiet ?_).2
    refine ⟨hat.mode, hat.started, rfl, hat.size, ?_, fun _ => hplace⟩
    intro hno
    cases hno
  · rw [httpNext_fst]
    exact ⟨_, hat.size, rfl⟩
  · rw [httpNext_fst]

private theorem chunk_takes {w : WriteLocals}
    (h : MainSends c.view.toNumbering begun numbers streamed (.sending o (.chunk w)))
    (hcounted : Counted c.view begun numbers) :
    Takes c begun numbers streamed o (.chunk w) (dataOctets streamed w.chunk.length)
      (runSent c true (.chunk w)) := by
  obtain ⟨⟨hmode, hstarted⟩, hdata, hsequence, hsize⟩ := h
  have hnext : c.nextSequence = position c.initialSequence numbers.length :=
    hcounted.next hstarted
  have hsequence : w.segmentSequence = c.nextSequence := hsequence
  subst hstarted
  rw [runSent, if_pos rfl]
  refine ⟨?_, ?_, ?_, ⟨⟨hmode, rfl⟩, numbers.length, ?_, ?_⟩, ?_, rfl⟩
  · rw [hdata.flags, length_dataOctets]
    rfl
  · refine numbered_data hdata.flags (hdata.sequence.trans hnext) ?_
    rw [hdata.payload]
    intro i hi
    exact getElem?_append_dataOctets numbers streamed hi
  · refine ⟨fun _ => ?_, by simp, hcounted.request, hcounted.mss⟩
    change w.expectedAck = position c.initialSequence _
    rw [WriteLocals.expectedAck, hsequence, hnext, position_add, length_append,
      length_dataOctets]
  · exact hsequence.trans hnext
  · intro i hi
    change _ = some (Octet.data (streamed + w.chunk.length - w.chunk.length + i))
    rw [Nat.add_sub_cancel]
    exact getElem?_append_dataOctets numbers streamed hi
  · refine ⟨w.chunk.length, hsize, ?_⟩
    rw [WriteLocals.expectedAck, hsequence]

private theorem runSent_takes
    (h : MainSends c.view.toNumbering begun numbers streamed (.sending o p))
    (hcounted : Counted c.view begun numbers) :
    ∃ added, Takes c begun numbers streamed o p added (runSent c true p) := by
  cases p with
  | httpSyn l now =>
    obtain ⟨hat, hsyn⟩ := h
    refine ⟨_, .syn rfl hsyn hcounted hat.started (httpNext_fst ..) ?_⟩
    rw [runSent, if_pos rfl, httpNext_fst]
    refine (httpNext_quiet ?_).2
    exact ⟨hat.mode, rfl, hat.sent, hat.size, hat.unsent, hat.request⟩
  | httpRequest => exact ⟨_, httpRequest_takes h hcounted⟩
  | httpRequestAgain l now =>
    obtain ⟨hat, hrequest, hdata⟩ := h
    refine ⟨_, .again rfl hdata ?_ hcounted (httpNext_fst ..) (httpNext_quiet ?_).2⟩
    · intro i hi
      have hat := hat.request hrequest i hi
      rwa [← Nat.zero_add i] at hat
    · exact ⟨hat.mode, hat.started, hat.sent, hat.size, hat.unsent, hat.request⟩
  | httpFin | tlsFin => exact ⟨_, .fin rfl h hcounted rfl fun _ _ _ _ => trivial⟩
  | connectSyn l now =>
    obtain ⟨hmode, hbegun, hsyn⟩ := h
    exact ⟨_, .syn rfl hsyn hcounted hbegun rfl ⟨hmode, rfl⟩⟩
  | chunk => exact ⟨_, chunk_takes h hcounted⟩
  | chunkAgain w now =>
    obtain ⟨hengine, ⟨t, hstart, hbytes⟩, hdata⟩ := h
    exact ⟨_, .again rfl ⟨hdata.flags, hdata.sequence.trans hstart, hdata.payload⟩ hbytes hcounted
      rfl ⟨hengine, t, hstart, hbytes⟩⟩

/-! ### Sends of handlers -/

private theorem FinInHand.append_fin (h : FinInHand iss numbers o) :
    FinInHand iss (numbers ++ [.fin]) o := by
  obtain ⟨t, hsequence, hnumber⟩ := h.number
  refine ⟨h.flags, h.payload, t, hsequence, .inr ?_⟩
  rcases hnumber with rfl | hfin
  · exact getElem?_concat_length
  · have hlt := (List.getElem?_eq_some_iff.mp hfin).1
    rwa [getElem?_append_left hlt]

private theorem ChunkAt.append_fin {w : WriteLocals} (h : ChunkAt n numbers streamed w)
    (next : UInt32) : ChunkAt { n with nextSequence := next } (numbers ++ [.fin]) streamed w := by
  obtain ⟨t, hstart, hbytes⟩ := h
  refine ⟨t, hstart, ?_⟩
  intro i hi
  have hat := hbytes i hi
  have hlt := (List.getElem?_eq_some_iff.mp hat).1
  rwa [getElem?_append_left hlt]

private theorem HttpAt.append_fin (h : HttpAt n begun numbers streamed l)
    (hsent : n.requestSent = true) (next : UInt32) :
    HttpAt { n with nextSequence := next } begun (numbers ++ [.fin]) streamed l := by
  refine ⟨h.mode, h.started, h.sent, h.size, ?_, ?_⟩
  · intro hno
    rw [hsent] at hno
    cases hno
  · intro _ i hi
    have hat := h.request hsent i hi
    have hlt := (List.getElem?_eq_some_iff.mp hat).1
    rwa [getElem?_append_left hlt]

/-- The FIN of the peer may be answered, at a place of the main program. -/
def mayCloseAt (n : Numbering) : Main → Bool
  | .sending _ (.chunk _) => false
  | .sending _ (.httpFin _) => true
  | _ => n.streamMode || n.requestSent

private theorem mayClose_eq (s : System) : mayClose s =
    mayCloseAt s.client.view.toNumbering s.main := by
  rfl

private theorem MainSends.append_fin {m : Main} (h : MainSends n begun numbers streamed m)
    (hmay : mayCloseAt n m = true) (next : UInt32) :
    MainSends { n with nextSequence := next } begun (numbers ++ [.fin]) streamed m := by
  have hsent : n.streamMode = false → (n.streamMode || n.requestSent) = true →
      n.requestSent = true := by
    intro hmode hor
    rwa [hmode, Bool.false_or] at hor
  match m with
  | .ready (.httpTest l) | .polling (.http l) => exact HttpAt.append_fin h (hsent h.mode hmay) next
  | .ready (.httpEnd _) | .returned _ => trivial
  | .sending o (.httpSyn l _) =>
    exact ⟨h.1.append_fin (hsent h.1.mode hmay) next, h.2.flags, h.2.sequence, h.2.payload⟩
  | .sending o (.httpRequest l _) =>
    have hyes := hsent h.1.mode hmay
    rw [h.2.1] at hyes
    cases hyes
  | .sending o (.httpRequestAgain l _) =>
    exact ⟨h.1.append_fin (hsent h.1.mode hmay) next, h.2⟩
  | .sending o (.httpFin _) | .sending o (.tlsFin _) => exact ⟨h.1, h.2.append_fin⟩
  | .ready (.connectTest l) | .ready (.connectEnd _) | .polling (.connect l) => exact h
  | .sending o (.connectSyn l _) => exact ⟨h.1, h.2.1, h.2.2.flags, h.2.2.sequence, h.2.2.payload⟩
  | .engine _ | .ready (.readTest _ _) | .polling (.read _ _) | .ready (.writeTest _ _ _) =>
    exact ⟨h.mode, h.started⟩
  | .sending o (.chunk w) => cases hmay
  | .ready (.chunkSent w) | .ready (.waitTest w) | .polling (.write w) =>
    exact ⟨⟨h.1.mode, h.1.started⟩, h.2.append_fin next⟩
  | .sending o (.chunkAgain w _) =>
    exact ⟨⟨h.1.mode, h.1.started⟩, h.2.1.append_fin next, h.2.2⟩

/-- A send of a handler in progress. -/
structure PendingSends (iss : UInt32) (numbers : List Octet) (may : Bool) (p : Pending) : Prop where
  acknowledges : p.next ≠ .finSent → p.outgoing.flags = 0x10 ∧ p.outgoing.payload = []
  fin : p.next = .finSent → FinInHand iss numbers p.outgoing
  closing : p.next = .finAcknowledged ∨ p.next = .finSent → may = true

private theorem Answer.pendingSends {closes may : Bool} {p : Pending} (h : Answer c closes p)
    (hclosing : closes = true → may = true) : PendingSends iss numbers may p := by
  refine ⟨?_, ?_, ?_⟩
  · intro _
    rw [h.acknowledges]
    exact ⟨rfl, rfl⟩
  · intro hfin
    exact absurd hfin h.next
  · rintro (hack | hfin)
    · exact hclosing (h.closing hack)
    · exact absurd hfin h.next

private theorem PendingSends.append_fin {may : Bool} {p : Pending}
    (h : PendingSends iss numbers may p) : PendingSends iss (numbers ++ [.fin]) may p :=
  ⟨h.acknowledges, fun hfin => (h.fin hfin).append_fin, h.closing⟩

/-! ### The system -/

/-- What is known of the system: the numbers that are taken, and every send in progress. -/
structure Sends (s : System) (log : SendLog) (numbers : List Octet) : Prop where
  length : numbers.length = log.streamed + log.fins
  numbered : Numbered s.client.initialSequence numbers log.octets
  counted : Counted s.client.view (synSent s) numbers
  good : Good (fun _ => True) s
  pending : ∀ p ∈ s.stack, PendingSends s.client.initialSequence numbers (mayClose s) p
  main : MainSends s.client.view.toNumbering (synSent s) numbers log.streamed s.main

private theorem Start.sends (h : Start s) : Sends s ⟨[], 0, 0⟩ [] := by
  cases h with
  | http initialSequence response responseCapacity request now timeoutTicks _ _ _ hrequest _ =>
    refine ⟨rfl, nofun, ⟨nofun, fun _ => ⟨rfl, rfl, rfl⟩, rfl, le_rfl⟩, ⟨nofun, ?_⟩, nofun, ?_⟩
    · intro hne
      exact absurd rfl hne
    · refine ⟨rfl, rfl, rfl, ?_, fun _ => ⟨rfl, rfl⟩, nofun⟩
      exact Nat.le_trans (Nat.le_of_lt hrequest) (by decide)
  | https initialSequence response now timeoutTicks _ =>
    refine ⟨rfl, nofun, ⟨nofun, fun _ => ⟨rfl, rfl, rfl⟩, rfl, le_rfl⟩, ⟨nofun, ?_⟩, nofun, ?_⟩
    · intro hne
      exact absurd rfl hne
    · exact ⟨rfl, rfl⟩

private theorem synSent_emit (s : System) (ok : Bool) (o : Outgoing) :
    synSent (s.emit ok o) = (synSent s || (ok && o.flags == 0x02)) := by
  cases ok with
  | false =>
    rw [Bool.false_and, Bool.or_false]
    rfl
  | true =>
    rw [Bool.true_and]
    change (s.wire ++ [o]).any _ = _
    rw [any_append, any_cons, any_nil, Bool.or_false]
    rfl

private theorem view_eq {t : Transmitting} (h : c.transmitting = t) :
    c.view = ⟨⟨t.streamMode, t.requestSent, t.initialSequence, t.nextSequence⟩, c.synAcknowledged,
      t.peerMss, t.requestSequence⟩ := by
  rw [← h]
  rfl

variable {r : Client × Option Pending} {stack : List Pending} {wire : List Outgoing} {e : Event}

private theorem Sends.handled (h : Sends s log numbers) {a : Bool} {mss : Nat}
    (hview : r.1.view = { s.client.view with synAcknowledged := a, peerMss := mss })
    (hclosed : synSent s = false → a = false) (hmss : mss ≤ tcpMaxPayload)
    (hstack : ∀ p ∈ stack, p ∈ s.stack)
    (hsyn : synSent { s with stack := stack, wire := wire } = synSent s)
    (hgood : Good (fun _ => True) (({ s with stack := stack, wire := wire } : System).handled r))
    (hpending : ∀ p ∈ r.2, PendingSends s.client.initialSequence numbers (mayClose s) p) :
    Sends (({ s with stack := stack, wire := wire } : System).handled r) log numbers ∧
      Advances s.client.nextSequence r.1.nextSequence := by
  have hinitial : r.1.initialSequence = s.client.initialSequence :=
    congrArg (·.initialSequence) hview
  have hnext : r.1.nextSequence = s.client.nextSequence := congrArg (·.nextSequence) hview
  have hmay : mayClose (({ s with stack := stack, wire := wire } : System).handled r) =
      mayClose s := by
    rw [mayClose_eq, mayClose_eq]
    change mayCloseAt r.1.view.toNumbering s.main = _
    rw [hview]
  refine ⟨⟨h.length, ?_, ?_, hgood, ?_, ?_⟩, hnext ▸ Advances.refl _⟩
  · change Numbered r.1.initialSequence _ _
    rw [hinitial]
    exact h.numbered
  · change Counted r.1.view (synSent { s with stack := stack, wire := wire }) numbers
    rw [hview, hsyn]
    refine ⟨h.counted.next, ?_, h.counted.request, hmss⟩
    intro hno
    exact ⟨hclosed hno, (h.counted.unsent hno).2⟩
  · rw [hmay]
    change ∀ p ∈ r.2.toList ++ stack, PendingSends r.1.initialSequence _ _ p
    rw [hinitial]
    intro p hp
    rcases mem_append.mp hp with hp | hp
    · exact hpending p (Option.mem_toList.mp hp)
    · exact h.pending p (hstack p hp)
  · change MainSends r.1.view.toNumbering (synSent { s with stack := stack, wire := wire }) _ _ s.main
    rw [hview, hsyn]
    exact h.main

private theorem Sends.arrived (h : Sends s log numbers) (horderly : Orderly s log (.arrive seg))
    (hstep : handleSegment s.client seg = .ok r) (hgood : Good (fun _ => True) (s.handled r)) :
    Sends (s.handled r) log numbers ∧ Advances s.client.nextSequence r.1.nextSequence := by
  obtain ⟨c', pending⟩ := r
  obtain ⟨hsame, hmss⟩ := handleSegment_transmitting hstep
  refine h.handled (view_eq hsame) ?_ ?_ (fun _ => id) rfl hgood ?_
  · intro hno
    rw [Bool.eq_false_iff]
    intro hopen
    rcases handleSegment_opens hstep hopen with hbefore | hopens
    · rw [h.counted.started hbefore] at hno
      cases hno
    · rw [horderly.opening hopens] at hno
      cases hno
  · rcases hmss with hmss | hmss
    · exact hmss ▸ h.counted.mss
    · exact hmss ▸ horderly.mss seg rfl
  · intro p hp
    exact (handleSegment_answer hstep p hp).pendingSends horderly.closing

private theorem recordSend_acknowledged {p : Pending} {rest : List Pending}
    (hstack : s.stack = p :: rest)
    (hack : p.outgoing.flags = 0x10 ∧ p.outgoing.payload = []) (ok : Bool) :
    recordSend s (.sent ok) log = log := by
  cases ok with
  | false => rfl
  | true =>
    rw [recordSend_handler hstack, octets_ack hack.1 hack.2, hack.1, append_nil]
    rfl

private theorem Sends.resumed (h : Sends s log numbers) {p : Pending} {rest : List Pending} {ok : Bool}
    (hclosing : closesIn s (.sent ok) = true → mayClose s = true) (hstack : s.stack = p :: rest)
    (hstep : resume p.next ok s.client = .ok r) (hno : ¬ (p.next = .finSent ∧ ok = true))
    (hgood : Good (fun _ => True) (({ s with stack := rest }.emit ok p.outgoing).handled r)) :
    Sends (({ s with stack := rest }.emit ok p.outgoing).handled r) log numbers ∧
      Advances s.client.nextSequence r.1.nextSequence := by
  obtain ⟨c', pending⟩ := r
  have hp := h.pending p (by rw [hstack]; exact mem_cons_self)
  have hstarted : synSent s = true :=
    h.counted.started (h.good.opened (by rw [hstack]; exact cons_ne_nil _ _))
  have hsame := resume_transmitting hstep
  rw [if_neg hno] at hsame
  refine h.handled (view_eq hsame) ?_ h.counted.mss ?_ ?_ hgood ?_
  · intro hfalse
    rw [hstarted] at hfalse
    cases hfalse
  · intro q hq
    rw [hstack]
    exact mem_cons_of_mem _ hq
  · change synSent ({ s with stack := rest }.emit ok p.outgoing) = _
    rw [synSent_emit, hstarted]
    change (synSent s || _) = _
    rw [hstarted]
    exact Bool.true_or _
  · intro q hq
    rcases resume_answer hstep q hq with hanswer | ⟨hpoint, rfl⟩
    · refine hanswer.pendingSends fun hcloses => hclosing ?_
      rw [closesIn, hstack]
      exact hcloses
    · refine ⟨?_, fun _ => h.counted.finInHand hstarted, fun _ => hp.closing (.inl hpoint)⟩
      intro hne
      exact absurd rfl hne

private theorem Sends.finSent (h : Sends s log numbers) {p : Pending} {rest : List Pending}
    (hstack : s.stack = p :: rest) (hstep : resume p.next true s.client = .ok r)
    (hfin : p.next = .finSent)
    (hgood : Good (fun _ => True) (({ s with stack := rest }.emit true p.outgoing).handled r)) :
    Sends (({ s with stack := rest }.emit true p.outgoing).handled r)
        (recordSend s (.sent true) log) (numbers ++ [.fin]) ∧
      Advances s.client.nextSequence r.1.nextSequence := by
  have hp := h.pending p (by rw [hstack]; exact mem_cons_self)
  have hhand := hp.fin hfin
  have hmay := hp.closing (.inr hfin)
  have hstarted : synSent s = true :=
    h.counted.started (h.good.opened (by rw [hstack]; exact cons_ne_nil _ _))
  have hsyn : synSent (({ s with stack := rest }.emit true p.outgoing).handled r) = true := by
    change synSent ({ s with stack := rest }.emit true p.outgoing) = true
    rw [synSent_emit]
    change (synSent s || _) = true
    rw [hstarted]
    exact Bool.true_or _
  have hlog : recordSend s (.sent true) log =
      ⟨log.octets ++ octets p.outgoing log.streamed, log.streamed, log.fins + 1⟩ := by
    rw [recordSend_handler hstack, hhand.flags]
    rfl
  rw [hfin, resume, if_pos rfl] at hstep
  cases hstep
  have hmain := h.main.append_fin ((mayClose_eq s).symm.trans hmay) (s.client.nextSequence + 1)
  rw [hlog]
  refine ⟨⟨?_, ?_, ?_, hgood, ?_, ?_⟩, Advances.one _⟩
  · rw [length_append, h.length]
    exact Nat.add_assoc _ _ _
  · exact (h.numbered.mono (prefix_append _ _)).append (hhand.numbered _)
  · rw [hsyn]
    exact ⟨fun _ => h.counted.fin hstarted, by simp, h.counted.request, h.counted.mss⟩
  · intro q hq
    have hold := h.pending q (by rw [hstack]; exact mem_cons_of_mem _ hq)
    exact hold.append_fin
  · rw [hsyn, ← hstarted]
    exact hmain

private theorem Sends.quiet (h : Sends s log numbers) {r : Client × Main}
    (hquiet : Quiet s.client (synSent s) numbers log.streamed r) (hgood : Good (fun _ => True) s')
    (hclient : s'.client = r.1) (hmain : s'.main = r.2) (hstack : s'.stack = [])
    (hwire : s'.wire = s.wire) :
    Sends s' log numbers ∧ Advances s.client.nextSequence s'.client.nextSequence := by
  have hview : s'.client.view = s.client.view := hclient ▸ hquiet.1
  have hinitial : s'.client.initialSequence = s.client.initialSequence :=
    congrArg (·.initialSequence) hview
  have hnext : s'.client.nextSequence = s.client.nextSequence := congrArg (·.nextSequence) hview
  have hsyn : synSent s' = synSent s := by rw [synSent, hwire, synSent]
  refine ⟨⟨h.length, hinitial ▸ h.numbered, ?_, hgood, ?_, ?_⟩, hnext ▸ Advances.refl _⟩
  · rw [hview, hsyn]
    exact h.counted
  · rw [hstack]
    nofun
  · rw [hview, hsyn, hmain]
    exact hquiet.2

private theorem Sends.takes (h : Sends s log numbers) (hstack : s.stack = [])
    (hmain : s.main = .sending o p)
    (hgood : Good (fun _ => True) ((s.emit true o).goOn (runSent s.client true p))) :
    ∃ numbers', Sends ((s.emit true o).goOn (runSent s.client true p))
        (recordSend s (.sent true) log) numbers' ∧
      Advances s.client.nextSequence (runSent s.client true p).1.nextSequence := by
  have hplace := h.main
  rw [hmain] at hplace
  obtain ⟨added, htakes⟩ := runSent_takes hplace h.counted
  have hlog : recordSend s (.sent true) log = ⟨log.octets ++ octets o (placeOf log.streamed p),
      log.streamed + newBytes p, log.fins + (o.flags &&& 1 != 0).toNat⟩ := by
    unfold recordSend
    rw [hstack, hmain]
  have hsyn : synSent ((s.emit true o).goOn (runSent s.client true p)) =
      (synSent s || o.flags == 0x02) := synSent_emit s true o
  refine ⟨numbers ++ added, ⟨?_, ?_, ?_, hgood, ?_, ?_⟩, htakes.advances⟩
  · rw [hlog, length_append, h.length, htakes.length]
    exact Nat.add_add_add_comm _ _ _ _
  · rw [hlog]
    change Numbered (runSent s.client true p).1.initialSequence _ _
    rw [htakes.initial]
    exact (h.numbered.mono (prefix_append _ _)).append htakes.numbered
  · rw [hsyn]
    exact htakes.counted
  · change ∀ q ∈ s.stack, _
    rw [hstack]
    nofun
  · rw [hsyn, hlog]
    exact htakes.main

private theorem Sends.step (h : Sends s log numbers) (horderly : Orderly s log e) (hturn : Turn s e s') :
    ∃ numbers', Sends s' (recordSend s e log) numbers' ∧
      Advances s.client.nextSequence s'.client.nextSequence := by
  have hgood := (hturn.progress h.good fun _ _ => trivial).1
  cases hturn with
  | arrived _ hstep => exact ⟨numbers, h.arrived horderly hstep hgood⟩
  | @resumed p rest ok r hstack hstep =>
    by_cases hfin : p.next = .finSent ∧ ok = true
    · obtain ⟨hfin, rfl⟩ := hfin
      exact ⟨_, h.finSent hstack hstep hfin hgood⟩
    · have hlog : recordSend s (.sent ok) log = log := by
        cases ok with
        | false => rfl
        | true =>
          have hp := h.pending p (by rw [hstack]; exact mem_cons_self)
          exact recordSend_acknowledged hstack (hp.acknowledges fun hp => hfin ⟨hp, rfl⟩) true
      rw [hlog]
      exact ⟨numbers, h.resumed horderly.closing hstack hstep hfin hgood⟩
  | @sent o p ok hstack hmain =>
    cases ok with
    | true => exact h.takes hstack hmain hgood
    | false =>
      have hplace := h.main
      rw [hmain] at hplace
      exact ⟨numbers, h.quiet (runSent_quiet hplace) hgood rfl rfl hstack rfl⟩
  | ready _ hstack hmain =>
    have hplace := h.main
    rw [hmain] at hplace
    exact ⟨numbers, h.quiet (runReady_quiet hplace h.counted) hgood rfl rfl hstack rfl⟩
  | polled _ hstack hmain =>
    have hplace := h.main
    rw [hmain] at hplace
    exact ⟨numbers, h.quiet (runPolled_quiet hplace h.counted) hgood rfl rfl hstack rfl⟩
  | engine hstack hmain =>
    have hplace := h.main
    rw [hmain] at hplace
    exact ⟨numbers, h.quiet (runEngine_quiet hplace h.counted _) hgood rfl rfl hstack rfl⟩

private theorem Sends.run {events : List Event} {s₀ : System} (hstart : Start s₀)
    (hmeets : Meets Tcp.step recordSend Orderly events s₀ ⟨[], 0, 0⟩)
    (hrun : run events s₀ = some s) :
    ∃ numbers, Sends s (recorded Tcp.step recordSend events s₀ ⟨[], 0, 0⟩) numbers ∧
      numbers.length < 2 ^ 32 := by
  refine steps_invariant (I := fun s log => ∃ numbers, Sends s log numbers ∧ numbers.length < 2 ^ 32)
    ?_ ⟨[], hstart.sends, by decide⟩ hmeets hrun
  rintro s log e s' ⟨numbers, h, -⟩ horderly hstep
  obtain ⟨numbers', h', -⟩ := h.step horderly (step_turn hstep)
  exact ⟨numbers', h', h'.length ▸ horderly.room⟩

/-- In every run of orderly turns no sequence number is used for two octets, and no further such turn
moves `next_sequence` back. -/
theorem sequence_discipline {events : List Event} {s₀ : System} (hstart : Start s₀)
    (hmeets : Meets step recordSend Orderly events s₀ ⟨[], 0, 0⟩) (hrun : run events s₀ = some s) :
    Unambiguous (recorded step recordSend events s₀ ⟨[], 0, 0⟩) ∧
      ∀ e s', Orderly s (recorded step recordSend events s₀ ⟨[], 0, 0⟩) e → step s e = some s' →
        NotBack s.client.nextSequence s'.client.nextSequence := by
  obtain ⟨numbers, h, hlength⟩ := Sends.run hstart hmeets hrun
  refine ⟨h.numbered.unambiguous hlength, ?_⟩
  intro e s' horderly hstep
  obtain ⟨-, -, hadvances⟩ := h.step horderly (step_turn hstep)
  exact hadvances.notBack

/-- The page of one byte is received by orderly turns. -/
theorem sequence_discipline_page : (run pageEvents pageStart).isSome = true ∧
    Unambiguous (recorded step recordSend pageEvents pageStart ⟨[], 0, 0⟩) :=
  ⟨by decide, (sequence_discipline pageStart_start (by decide) rfl).1⟩

/-- The peer closes in the poll that also brings its SYN-ACK. -/
def earlyFin : List Event :=
  [.run 0, .run 0, .sent true, .run 0, .arrive ⟨0x12, 100, 8, 1460, []⟩, .sent true,
    .arrive ⟨0x11, 101, 8, 1460, []⟩, .sent true, .sent true]

/-- The FIN that answers takes the number of the first byte of the request, and the counter goes back
before the request is sent. -/
theorem fin_before_request : Start pageStart ∧
    ¬ Unambiguous (recorded step recordSend (earlyFin ++ [.run 0, .sent true]) pageStart ⟨[], 0, 0⟩) ∧
    ∃ s s', run earlyFin pageStart = some s ∧ step s (.run 0) = some s' ∧
      ¬ NotBack s.client.nextSequence s'.client.nextSequence := by
  refine ⟨pageStart_start, ?_, _, _, rfl, rfl, by decide⟩
  intro h
  exact absurd (h 8 .fin (.data 0) (by decide) (by decide)) (by decide)

end NasuaOS.Tcp
