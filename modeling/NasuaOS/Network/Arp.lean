import NasuaOS.Network.Interface

/-!
# The ARP cache

`src/resources/drivers/network/functions/arp.cpp:34–82`. Sixteen entries; an insertion takes the entry
of its address, or one that is unused or too old where there is such an entry. Entries that are too
old become invalid when they are looked up.
-/

namespace NasuaOS.Network

open Base Function List

/-- A call of one of the two functions. -/
inductive ArpCall
  | insert (ip : IPAddress) (mac : MACAddress)
  | look (ip : IPAddress)
  deriving DecidableEq, Repr

/-- Calls in a row. -/
def arpCalls (line : Line) : List ArpCall → NetM Unit
  | [] => return
  | .insert ip mac :: rest => do
    cacheAddress line ip mac
    arpCalls line rest
  | .look ip :: rest => do
    discard (cachedAddress line ip)
    arpCalls line rest

/-- What was inserted, the last first; each call reads the clock once. -/
def insertions (line : Line) : List ArpCall → Nat → List ArpEntry → List ArpEntry
  | [], _, log => log
  | .insert ip mac :: rest, moment, log =>
    insertions line rest (moment + 1) (⟨ip, mac, line.clock moment, true⟩ :: log)
  | .look _ :: rest, moment, log => insertions line rest (moment + 1) log

/-- An entry that may be given up. -/
def ArpEntry.Free (now : UInt64) (e : ArpEntry) : Prop := e.valid = false ∨ 3000 < now - e.updated

/-- What holds of the entries: the valid ones are the last insertions of their addresses, and the
others were never used or are too old. -/
structure ArpSound (now : UInt64) (log : List ArpEntry) (cache : Fin 16 → ArpEntry) : Prop where
  past : ∀ i, (cache i).updated ≤ now
  single : ∀ i j, (cache i).valid = true → (cache j).valid = true →
    (cache i).ip = (cache j).ip → i = j
  latest : ∀ i, (cache i).valid = true → log.find? (·.ip == (cache i).ip) = some (cache i)
  unused : ∀ i, (cache i).valid = false →
    (cache i).updated = 0 ∨ 3000 < now - (cache i).updated

variable {cache : Fin 16 → ArpEntry} {now later : UInt64} {log : List ArpEntry} {ip : IPAddress}
  {mac : MACAddress} {line : Line} {s : Net} {i target : Fin 16} {oldestAge : UInt64}

private theorem ArpSound.mono (h : ArpSound now log cache) (hlater : now ≤ later) :
    ArpSound later log cache := by
  refine ⟨fun i => UInt64.le_trans (h.past i) hlater, h.single, h.latest, fun i hi => ?_⟩
  refine (h.unused i hi).imp_right fun hold => ?_
  have hpast := h.past i
  rw [UInt64.lt_iff_toNat_lt, UInt64.toNat_sub_of_le _ _ hpast] at hold
  rw [UInt64.lt_iff_toNat_lt, UInt64.toNat_sub_of_le _ _ (UInt64.le_trans hpast hlater)]
  rw [UInt64.le_iff_toNat_le] at hlater
  omega

/-- The entry found so far is free, and none that is in use is older. -/
def Settled (cache : Fin 16 → ArpEntry) (now : UInt64) (target : Fin 16) (oldestAge : UInt64) :
    Prop :=
  (cache target).Free now ∧
    ∀ i, ¬ (cache i).Free now → now - (cache i).updated ≤ oldestAge

private theorem ArpSound.settled (h : ArpSound now log cache) (hi : (cache i).Free now) :
    Settled cache now i (now - (cache i).updated) := by
  refine ⟨hi, fun j hj => ?_⟩
  rw [ArpEntry.Free, not_or, UInt64.not_lt] at hj
  have hstale (hold : 3000 < now - (cache i).updated) :
      now - (cache j).updated ≤ now - (cache i).updated :=
    UInt64.le_of_lt (UInt64.lt_of_le_of_lt hj.2 hold)
  obtain hinvalid | hold := hi
  · obtain hzero | hold := h.unused i hinvalid
    · rw [hzero, UInt64.sub_zero]
      exact UInt64.sub_le (h.past j)
    · exact hstale hold
  · exact hstale hold

private theorem cacheTarget_spec (h : ArpSound now log cache) (l : List (Fin 16))
    (hold : 3000 < oldestAge → Settled cache now target oldestAge) :
    ((cache (cacheTarget cache ip now l target oldestAge)).valid = true ∧
      (cache (cacheTarget cache ip now l target oldestAge)).ip = ip) ∨
    (∀ i ∈ l, (cache i).valid = true → (cache i).ip ≠ ip) ∧
      (Settled cache now target oldestAge ∨ (∃ i ∈ l, (cache i).Free now) →
        (cache (cacheTarget cache ip now l target oldestAge)).Free now) := by
  induction l generalizing target oldestAge with
  | nil => exact .inr ⟨nofun, fun h => (h.resolve_right (by simp)).1⟩
  | cons index rest ih =>
    rw [cacheTarget]
    split
    · next hmatch => exact .inl (by simpa using hmatch)
    next hother =>
    have hne : (cache index).valid = true → (cache index).ip ≠ ip := by simpa using hother
    dsimp only
    split
    · next htake =>
      rw [Bool.or_eq_true, Bool.not_eq_true', decide_eq_true_eq] at htake
      refine (ih fun hage => h.settled (.inr hage)).imp_right fun ⟨hnone, hfree⟩ =>
        ⟨forall_mem_cons.mpr ⟨hne, hnone⟩, ?_⟩
      rintro (hsettled | ⟨i, hi, hfound⟩)
      · refine hfree (.inl (h.settled ?_))
        by_contra hused
        have hage := hsettled.2 index hused
        exact htake.elim (fun hinvalid => hused (.inl hinvalid)) (UInt64.not_lt.mpr hage)
      · obtain rfl | hi := mem_cons.mp hi
        · exact hfree (.inl (h.settled hfound))
        · exact hfree (.inr ⟨i, hi, hfound⟩)
    · next hkeep =>
      rw [Bool.or_eq_true, Bool.not_eq_true', decide_eq_true_eq, not_or, Bool.not_eq_false,
        UInt64.not_lt] at hkeep
      refine (ih hold).imp_right fun ⟨hnone, hfree⟩ =>
        ⟨forall_mem_cons.mpr ⟨hne, hnone⟩, ?_⟩
      rintro (hsettled | ⟨i, hi, hfound⟩)
      · exact hfree (.inl hsettled)
      · obtain rfl | hi := mem_cons.mp hi
        · have hstale := hfound.resolve_left (by simp [hkeep.1])
          exact hfree (.inl (hold (UInt64.lt_of_lt_of_le hstale hkeep.2)))
        · exact hfree (.inr ⟨i, hi, hfound⟩)

private theorem ArpSound.insert (h : ArpSound now log cache) (ip : IPAddress) (mac : MACAddress) :
    ArpSound now (⟨ip, mac, now, true⟩ :: log) (update cache
      (cacheTarget cache ip now (finRange 16) 0 0) ⟨ip, mac, now, true⟩) := by
  have htarget := @cacheTarget_spec cache now log ip 0 0 h (finRange 16) nofun
  generalize cacheTarget cache ip now (finRange 16) 0 0 = t at htarget
  -- no other entry is valid for the address
  have hother (i : Fin 16) (hi : i ≠ t) (hvalid : (cache i).valid = true) : (cache i).ip ≠ ip := by
    intro hip
    obtain ⟨hv, htip⟩ | ⟨hnone, -⟩ := htarget
    · exact hi (h.single i t hvalid hv (hip.trans htip.symm))
    · exact hnone i (mem_finRange i) hvalid hip
  constructor
  · grind [h.past]
  · grind [h.single]
  · grind [h.latest]
  · grind [h.unused]

private theorem cachedScan_spec (ip : IPAddress) (now : UInt64) (l : List (Fin 16))
    (cache : Fin 16 → ArpEntry) :
    (∀ mac, (cachedScan ip now l cache).1 = some mac → ∃ i, (cache i).valid = true ∧
      (cache i).ip = ip ∧ (cache i).mac = mac ∧ now - (cache i).updated ≤ 3000) ∧
    ∀ i, (cachedScan ip now l cache).2 i = cache i ∨
      (cachedScan ip now l cache).2 i = { cache i with valid := false } ∧
        3000 < now - (cache i).updated := by
  induction l generalizing cache with
  | nil => exact ⟨nofun, fun i => .inl rfl⟩
  | cons index rest ih =>
    rw [cachedScan]
    split
    · next hmatch =>
      simp only [Bool.and_eq_true, beq_iff_eq] at hmatch
      split
      · next hyoung =>
        refine ⟨fun mac hmac => ⟨index, hmatch.1, hmatch.2, ?_, hyoung⟩, fun i => .inl rfl⟩
        exact Option.some.inj hmac
      · next hold =>
        obtain ⟨hhit, hkept⟩ := ih (update cache index { cache index with valid := false })
        refine ⟨fun mac hmac => ?_, fun i => ?_⟩
        · obtain ⟨i, hvalid, hrest⟩ := hhit mac hmac
          have hi : i ≠ index := by
            rintro rfl
            simp at hvalid
          rw [update_of_ne hi] at hvalid hrest
          exact ⟨i, hvalid, hrest⟩
        · have hi := hkept i
          by_cases hindex : i = index
          · subst hindex
            simp only [update_self] at hi
            exact .inr ⟨hi.elim id And.left, UInt64.not_le.mp hold⟩
          · rwa [update_of_ne hindex] at hi
    · exact ih cache

private theorem ArpSound.look (h : ArpSound now log cache) (ip : IPAddress) (l : List (Fin 16)) :
    ArpSound now log (cachedScan ip now l cache).2 := by
  have hkept := (cachedScan_spec ip now l cache).2
  constructor
  · grind [h.past]
  · grind [h.single]
  · grind [h.latest]
  · grind [h.unused]

private theorem arpCalls_sound (hclock : ∀ k, line.clock k ≤ line.clock (k + 1))
    (calls : List ArpCall)
    (h : ArpSound (line.clock s.moment) log s.arpCache) : ∃ t, arpCalls line calls s = .ok (⟨⟩, t) ∧
      ArpSound (line.clock t.moment) (insertions line calls s.moment log) t.arpCache := by
  induction calls generalizing s log with
  | nil => exact ⟨s, rfl, h⟩
  | cons call rest ih =>
    cases call with
    | insert ip mac =>
      let target := cacheTarget s.arpCache ip (line.clock s.moment) (finRange 16) 0 0
      let cache := update s.arpCache target ⟨ip, mac, line.clock s.moment, true⟩
      exact ih
        ((h.insert ip mac).mono (hclock _))
    | look ip =>
      let cache := (cachedScan ip (line.clock s.moment) (finRange 16) s.arpCache).2
      exact ih (s := { s with moment := s.moment + 1, arpCache := cache })
        ((h.look ip _).mono (hclock _))

/-- After any calls from the empty cache on, while the clock does not go back: the calls return; there
is one valid entry for an address at most; a lookup gives what was inserted last for the address, and
this at most 3000 ticks ago; and an insertion leaves the entries of other addresses that are as young
while there is an entry that is not. -/
theorem arp_cache_fresh (hclock : ∀ k, line.clock k ≤ line.clock (k + 1))
    (hempty : ∀ i, s.arpCache i = ⟨.zero, ⟨0, 0, 0, 0, 0, 0⟩, 0, false⟩) (calls : List ArpCall) :
    ∃ t, arpCalls line calls s = .ok (⟨⟩, t) ∧
      (∀ i j, (t.arpCache i).valid = true → (t.arpCache j).valid = true →
        (t.arpCache i).ip = (t.arpCache j).ip → i = j) ∧
      (∀ ip mac u, cachedAddress line ip t = .ok (some mac, u) →
        ∃ e, (insertions line calls s.moment []).find? (·.ip == ip) = some e ∧ e.mac = mac ∧
          line.clock t.moment - e.updated ≤ 3000) ∧
      ∀ ip mac u, cacheAddress line ip mac t = .ok (⟨⟩, u) →
        ∀ i, (t.arpCache i).ip ≠ ip → ¬ (t.arpCache i).Free (line.clock t.moment) →
          (∃ j, (t.arpCache j).Free (line.clock t.moment)) → u.arpCache i = t.arpCache i := by
  have hstart : ArpSound (line.clock s.moment) [] s.arpCache := by
    constructor <;> simp [hempty]
  obtain ⟨t, ht, hsound⟩ := arpCalls_sound hclock calls hstart
  refine ⟨t, ht, hsound.single, ?_, ?_⟩
  · intro ip mac u hu
    obtain ⟨i, hvalid, rfl, hmac, hyoung⟩ :=
      (cachedScan_spec ip (line.clock t.moment) (finRange 16) t.arpCache).1 mac
        (congrArg Prod.fst (Except.ok.inj hu))
    exact ⟨_, hsound.latest i hvalid, hmac, hyoung⟩
  · intro ip mac u hu i hip hused hfree
    cases hu
    refine update_of_ne ?_ _ _
    rintro rfl
    obtain hsame | ⟨-, hfound⟩ := @cacheTarget_spec _ _ _ ip 0 0 hsound (finRange 16) nofun
    · exact hip hsame.2
    · obtain ⟨j, hj⟩ := hfree
      exact hused (hfound (.inr ⟨j, mem_finRange j, hj⟩))

/-- A clock that stops in the end. -/
def shortClock : Line := { Line.still with clock := fun k => UInt64.ofNat (min k 300) }

/-- An address is inserted again with another hardware address after a neighbour. -/
def moved : List ArpCall :=
  [.insert ⟨10, 0, 0, 1⟩ ⟨2, 0, 0, 0, 0, 1⟩, .insert ⟨10, 0, 0, 2⟩ ⟨2, 0, 0, 0, 0, 2⟩,
    .insert ⟨10, 0, 0, 1⟩ ⟨2, 0, 0, 0, 0, 3⟩]

/-- A lookup finds the second hardware address, which was inserted last. -/
theorem arp_cache_fresh_moved : ∃ t u e,
    arpCalls shortClock moved (.initial ⟨2, 0, 0, 0, 0, 9⟩) = .ok (⟨⟩, t) ∧
      cachedAddress shortClock ⟨10, 0, 0, 1⟩ t = .ok (some ⟨2, 0, 0, 0, 0, 3⟩, u) ∧
      (insertions shortClock moved 0 []).find? (·.ip == ⟨10, 0, 0, 1⟩) = some e ∧
      e.mac = ⟨2, 0, 0, 0, 0, 3⟩ ∧ shortClock.clock t.moment - e.updated ≤ 3000 := by
  have hclock : ∀ k, shortClock.clock k ≤ shortClock.clock (k + 1) := by
    intro k
    rw [UInt64.le_iff_toNat_le]
    change min k 300 % 2 ^ 64 ≤ min (k + 1) 300 % 2 ^ 64
    omega
  obtain ⟨t, ht, -, hlookup, -⟩ :=
    @arp_cache_fresh shortClock (.initial ⟨2, 0, 0, 0, 0, 9⟩) hclock (fun _ => rfl) moved
  obtain ⟨u, hfound⟩ :
      ∃ u, cachedAddress shortClock ⟨10, 0, 0, 1⟩ t = .ok (some ⟨2, 0, 0, 0, 0, 3⟩, u) := by
    cases ht
    exact ⟨_, rfl⟩
  obtain ⟨e, he⟩ := hlookup _ _ _ hfound
  exact ⟨t, u, e, ht, hfound, he⟩

end NasuaOS.Network
