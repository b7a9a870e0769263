import NasuaOS.Tcp.Peer
import NasuaOS.Tcp.Transmitting

/-!
# What takes sequence numbers

The SYN, each byte of the client's own stream and the FIN are octets that take a sequence number. A
log of them is kept along a run, from the segments that go out. Behind the SYN the numbers that were
taken form a list of octets; as long as it is shorter than one round of the sequence numbers, and
everything that went out stands in it, no number was used for two octets.
-/

namespace NasuaOS.Tcp

open Base List

/-- What takes a sequence number. A byte is named by its place in the stream of the client. -/
inductive Octet
  | syn
  | data (place : Nat)
  | fin
  deriving DecidableEq, Repr

/-- The octets of a segment whose payload starts at a place of the stream. -/
def octets (o : Outgoing) (place : Nat) : List (UInt32 × Octet) :=
  (if o.flags &&& 2 != 0 then [(o.sequence, .syn)] else []) ++
    ((range o.payload.length).map fun i =>
      (o.sequence + UInt32.ofNat i, .data (place + i))) ++
    (if o.flags &&& 1 != 0 then [(o.sequence + UInt32.ofNat o.payload.length, .fin)] else [])

/-- The octets that went out, the length of the stream so far, and the number of FINs. -/
structure SendLog where
  octets : List (UInt32 × Octet)
  streamed : Nat
  fins : Nat
  deriving DecidableEq, Repr

/-- Where in the stream the payload of a send stands. -/
def placeOf (streamed : Nat) : Sending → Nat
  | .httpRequestAgain _ _ => 0
  | .chunkAgain w _ => streamed - w.chunk.length
  | _ => streamed

/-- The number of bytes that a send adds to the stream. -/
def newBytes : Sending → Nat
  | .httpRequest l _ => l.request.length
  | .chunk w => w.chunk.length
  | _ => 0

/-- Keep the log: a send that succeeds puts its segment on the line. -/
def recordSend (s : System) (e : Event) (log : SendLog) : SendLog :=
  match e, s.stack, s.main with
  | .sent true, p :: _, _ =>
    ⟨log.octets ++ octets p.outgoing log.streamed, log.streamed,
      log.fins + (p.outgoing.flags &&& 1 != 0).toNat⟩
  | .sent true, [], .sending o p =>
    ⟨log.octets ++ octets o (placeOf log.streamed p), log.streamed + newBytes p,
      log.fins + (o.flags &&& 1 != 0).toNat⟩
  | _, _, _ => log

/-- The log after a send of a handler. -/
theorem recordSend_handler {s : System} {p : Pending} {rest : List Pending}
    (hstack : s.stack = p :: rest) (log : SendLog) : recordSend s (.sent true) log =
      ⟨log.octets ++ octets p.outgoing log.streamed, log.streamed,
        log.fins + (p.outgoing.flags &&& 1 != 0).toNat⟩ := by
  unfold recordSend
  rw [hstack]

/-- No number is used for two octets. -/
def Unambiguous (log : SendLog) : Prop :=
  ∀ n a b, (n, a) ∈ log.octets → (n, b) ∈ log.octets → a = b

/-- The counter does not go back, as serial numbers are compared. -/
def NotBack (before after : UInt32) : Prop := 0 ≤ (after - before).toInt32

instance (before after : UInt32) : Decidable (NotBack before after) :=
  inferInstanceAs (Decidable (_ ≤ _))

variable {iss : UInt32} {numbers numbers' : List Octet} {log log' : List (UInt32 × Octet)}
  {o : Outgoing} {place t d : Nat} {before after : UInt32}

/-- Everything that went out is the SYN, or stands in the list at its number. -/
def Numbered (iss : UInt32) (numbers : List Octet) (log : List (UInt32 × Octet)) : Prop :=
  ∀ n a, (n, a) ∈ log → (a = .syn ∧ n = iss) ∨ ∃ m, numbers[m]? = some a ∧ n = position iss m

/-- More numbers are taken. -/
theorem Numbered.mono (h : Numbered iss numbers log) (hnumbers : numbers <+: numbers') :
    Numbered iss numbers' log := by
  intro n a hn
  refine (h n a hn).imp_right ?_
  rintro ⟨m, hm, heq⟩
  obtain ⟨rest, rfl⟩ := hnumbers
  have hlt : m < numbers.length := (List.getElem?_eq_some_iff.mp hm).1
  exact ⟨m, by rwa [getElem?_append_left hlt], heq⟩

/-- More goes out. -/
theorem Numbered.append (h : Numbered iss numbers log) (h' : Numbered iss numbers log') :
    Numbered iss numbers (log ++ log') := by
  intro n a hn
  rcases mem_append.mp hn with hn | hn
  · exact h n a hn
  · exact h' n a hn

/-- Numbers that are all taken in one round belong to one octet each. -/
theorem Numbered.unambiguous {log : SendLog} (h : Numbered iss numbers log.octets)
    (hlength : numbers.length < 2 ^ 32) : Unambiguous log := by
  have hzero : ∀ m, m < numbers.length → position iss m ≠ iss := by
    intro m hm heq
    have hone : position iss m = position iss (2 ^ 32 - 1) := by
      rw [heq, position, UInt32.add_assoc]
      exact (UInt32.add_zero iss).symm
    have := position_inj hone (by omega) (by omega)
    omega
  intro n a b ha hb
  rcases h n a ha with ⟨rfl, hna⟩ | ⟨i, hi, hna⟩
  · rcases h n b hb with ⟨rfl, -⟩ | ⟨j, hj, hnb⟩
    · rfl
    · have hlt := (List.getElem?_eq_some_iff.mp hj).1
      exact absurd (hnb.symm.trans hna) (hzero j hlt)
  · have hi' := (List.getElem?_eq_some_iff.mp hi).1
    rcases h n b hb with ⟨rfl, hnb⟩ | ⟨j, hj, hnb⟩
    · exact absurd (hna.symm.trans hnb) (hzero i hi')
    · have hj' := (List.getElem?_eq_some_iff.mp hj).1
      have hij : i = j := position_inj (hna.symm.trans hnb) (by omega) (by omega)
      rw [hij, hj, Option.some.injEq] at hi
      exact hi.symm

/-- A SYN. -/
theorem octets_syn (hflags : o.flags = 0x02) (hempty : o.payload = []) :
    octets o place = [(o.sequence, .syn)] := by
  rw [octets, hflags, hempty]
  rfl

/-- An acknowledgement. -/
theorem octets_ack (hflags : o.flags = 0x10) (hempty : o.payload = []) : octets o place = [] := by
  rw [octets, hflags, hempty]
  rfl

/-- A FIN. -/
theorem octets_fin (hflags : o.flags = 0x11) (hempty : o.payload = []) :
    octets o place = [(o.sequence, .fin)] := by
  rw [octets, hflags, hempty]
  change [(o.sequence + 0, Octet.fin)] = _
  rw [UInt32.add_zero]

/-- Data whose bytes stand in the list from `t` on. -/
theorem numbered_data (hflags : o.flags = 0x18) (hstart : o.sequence = position iss t)
    (hbytes : ∀ i, i < o.payload.length → numbers[t + i]? = some (.data (place + i))) :
    Numbered iss numbers (octets o place) := by
  intro n a hn
  rw [octets, hflags] at hn
  obtain ⟨i, hi, heq⟩ := mem_map.mp (append_nil _ ▸ hn)
  cases heq
  refine .inr ⟨t + i, hbytes i (mem_range.mp hi), ?_⟩
  rw [hstart, position_add]

/-- The bytes that a segment of new data adds to the list. -/
def dataOctets (place length : Nat) : List Octet :=
  (range length).map fun i => .data (place + i)

/-- They stand where the list ended. -/
theorem getElem?_append_dataOctets (numbers : List Octet) (place : Nat) {length i : Nat}
    (hi : i < length) :
    (numbers ++ dataOctets place length)[numbers.length + i]? = some (.data (place + i)) := by
  rw [getElem?_append_right (Nat.le_add_right _ _), Nat.add_sub_cancel_left, dataOctets,
    getElem?_map, getElem?_range hi]
  rfl

/-- Advance the counter by a number that fits into a segment. -/
def Advances (before after : UInt32) : Prop :=
  ∃ d, d ≤ tcpMaxPayload ∧ after = before + UInt32.ofNat d

/-- Stay. -/
theorem Advances.refl (n : UInt32) : Advances n n :=
  ⟨0, Nat.zero_le _, (UInt32.add_zero n).symm⟩

/-- That is not back. -/
theorem Advances.notBack (h : Advances before after) : NotBack before after := by
  obtain ⟨d, hd, rfl⟩ := h
  have hsmall : d < 2 ^ 31 := Nat.lt_of_le_of_lt hd (by decide)
  have hvalue : (UInt32.ofNat d).toInt32.toInt = d := Int32.toInt_ofNat_of_lt hsmall
  rw [NotBack, UInt32.add_comm, UInt32.add_sub_cancel, Int32.le_iff_toInt_le, hvalue]
  exact Int.natCast_nonneg d

end NasuaOS.Tcp
