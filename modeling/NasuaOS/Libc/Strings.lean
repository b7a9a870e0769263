import NasuaOS.Base.Words
import Mathlib.Data.List.GetD
import Mathlib.Data.List.TakeWhile

/-!
# C strings

Kernel `libc`: `src/resources/libs/libc/libc.cpp:7–26,255–265`.
A C string is the list of its bytes before the terminator, so it holds no zero byte.
Memory that a string function scans is observed as a function from offsets to bytes.
-/

namespace NasuaOS.Libc

open Base List

/-- A string argument: the bytes before the terminating zero. -/
def CString := { s : Bytes // (0 : UInt8) ∉ s }

/-- The string in a byte buffer: what stands before the first zero. -/
def cstring (bytes : Bytes) : CString :=
  ⟨bytes.takeWhile (· != 0), fun h => by simpa using mem_takeWhile_imp h⟩

/-- The path separator. -/
def slash : UInt8 := 47

/-- ASCII text as bytes, for the literals of the source. -/
def ascii (s : List Char) : Bytes := s.map fun c => UInt8.ofNat c.toNat

/-- `strcmp(s1, s2)` at `libc.cpp:18`, with `s1` in memory and `s2` given by its bytes. -/
def strcmp (s1 : Nat → UInt8) : Bytes → Int
  | [] => (s1 0).toNat
  | c :: s2 =>
    if s1 0 ≠ 0 ∧ s1 0 = c then strcmp (fun k => s1 (k + 1)) s2
    else ((s1 0).toNat : Int) - c.toNat

/-- Memory holds exactly the string: its bytes in order, then a terminator. -/
def Holds (memory : Nat → UInt8) (s : Bytes) : Prop :=
  (∀ k, k < s.length → memory k = s.getD k 0) ∧ memory s.length = 0

private theorem holds_cons (memory : Nat → UInt8) (c : UInt8) (s : Bytes) :
    Holds memory (c :: s) ↔ memory 0 = c ∧ Holds (fun k => memory (k + 1)) s := by
  constructor
  · rintro ⟨hb, ht⟩
    refine ⟨by simpa using hb 0 (by simp), ?_, by simpa using ht⟩
    intro k hk
    simpa using hb (k + 1) (by simpa using hk)
  · rintro ⟨h0, hb, ht⟩
    refine ⟨?_, by simpa using ht⟩
    intro k hk
    cases k with
    | zero => simpa using h0
    | succ k => simpa using hb k (by simpa using hk)

/-- Memory holds one string. -/
theorem Holds.unique {memory : Nat → UInt8} {s t : Bytes} (hs : Holds memory s)
    (ht : Holds memory t) (hs0 : (0 : UInt8) ∉ s) (ht0 : (0 : UInt8) ∉ t) : s = t := by
  have hle {s t : Bytes} (hs : Holds memory s) (ht : Holds memory t)
      (ht0 : (0 : UInt8) ∉ t) : t.length ≤ s.length := by
    apply Nat.not_lt.mp
    intro hlt
    have hend := ht.1 s.length hlt
    rw [hs.2, getD_eq_getElem _ _ hlt] at hend
    exact ht0 (hend ▸ getElem_mem hlt)
  apply ext_getElem (Nat.le_antisymm (hle ht hs hs0) (hle hs ht ht0))
  intro k h1 h2
  have h := (hs.1 k h1).symm.trans (ht.1 k h2)
  rwa [getD_eq_getElem _ _ h1, getD_eq_getElem _ _ h2] at h

/-- Comparison yields zero exactly when the memory holds the string. -/
theorem strcmp_eq_zero_iff (memory : Nat → UInt8) (s : Bytes) (hs : (0 : UInt8) ∉ s) :
    strcmp memory s = 0 ↔ Holds memory s := by
  induction s generalizing memory with
  | nil =>
    have hz : memory 0 = 0 ↔ (memory 0).toNat = 0 := by rw [← UInt8.toNat_inj]; rfl
    simp only [strcmp, Holds, length_nil, hz]
    constructor
    · intro h
      exact ⟨by intro k hk; omega, by omega⟩
    · rintro ⟨-, h⟩
      omega
  | cons c s ih =>
    simp only [mem_cons, not_or] at hs
    rw [holds_cons, strcmp]
    split
    · next h => rw [ih _ hs.2]; simp [h.2]
    · next h =>
      have hne : memory 0 ≠ c := by
        intro he
        exact h ⟨by rw [he]; exact fun hc => hs.1 hc.symm, he⟩
      have hn : (memory 0).toNat ≠ c.toNat := fun he => hne (UInt8.toNat_inj.mp he)
      simp only [hne, false_and, iff_false]
      omega

/-- Comparison reads no byte after the first terminator in memory. -/
theorem strcmp_congr (m1 m2 : Nat → UInt8) (stop : Nat) (s : Bytes)
    (heq : ∀ k, k ≤ stop → m1 k = m2 k) (hstop : m1 stop = 0) : strcmp m1 s = strcmp m2 s := by
  induction s generalizing m1 m2 stop with
  | nil => simp only [strcmp, heq 0 (by omega)]
  | cons c s ih =>
    have h0 := heq 0 (by omega)
    simp only [strcmp, h0]
    split
    · next h =>
      cases stop with
      | zero => exact absurd (h0 ▸ hstop) h.1
      | succ stop =>
        exact ih _ _ stop (fun k hk => heq (k + 1) (by omega)) hstop
    · rfl

/-- A string that ends inside an array is read back from it. -/
theorem cstring_getD {s : Bytes} {n : Nat} (hlen : s.length ≤ n) (hzero : (0 : UInt8) ∉ s) :
    (cstring ((range n).map fun k => s.getD k 0)).val = s := by
  obtain ⟨rest, rfl⟩ := Nat.exists_eq_add_of_le hlen
  have hfront : (range s.length).map (fun k => s.getD k 0) = s := by
    apply ext_getElem
    · rw [length_map, length_range]
    · intro k hk hks
      rw [getElem_map, getElem_range, getD_eq_getElem _ _ hks]
  have hall : ∀ c ∈ s, (c != 0) = true := by
    intro c hc
    rw [bne_iff_ne]
    rintro rfl
    exact hzero hc
  change takeWhile (· != 0) _ = s
  rw [range_add, map_append, hfront, takeWhile_append_of_pos hall]
  cases rest with
  | zero => exact append_nil s
  | succ rest =>
    rw [range_succ_eq_map, map_cons, map_cons, Nat.add_zero,
      getD_eq_default _ _ le_rfl, takeWhile_cons_of_neg (by decide),
      append_nil]

end NasuaOS.Libc
