import NasuaOS.SuaScript.Tokens

/-!
# Line numbers of tokens

`src/utilities/applications/suaedit/src/suascript.cpp:291–396,541–542`. The line counter sees every
line end but those that a backslash escapes in a string.
-/

namespace NasuaOS.SuaScript

open Base Libc List

/-- What a character is part of. -/
inductive Mode
  | code | comment | string | escape
  deriving DecidableEq

/-- The part that the next character belongs to. -/
def Mode.next : Mode → UInt8 → Bytes → Mode
  | code, c, text =>
    if c = 34 then string else if c = 35 ∨ c = 47 ∧ text.head? = some 47 then comment else code
  | comment, c, _ => if c = 10 then code else comment
  | string, c, _ => if c = 34 then code else if c = 92 then escape else string
  | escape, _, _ => string

/-- The number of line ends that are escaped in strings. -/
def hidden : Mode → Bytes → Nat
  | _, [] => 0
  | mode, c :: text => (if mode = .escape ∧ c = 10 then 1 else 0) + hidden (mode.next c text) text

/-- `n` characters of code are passed, with some line ends in the open and some hidden. -/
def Passes (text : Bytes) (n plain escaped : Nat) : Prop :=
  n ≤ text.length ∧ (text.take n).count 10 = plain + escaped ∧
    hidden .code text = escaped + hidden .code (text.drop n)

/-- A line number against the lines before a position, when it is `d` too low. -/
def Behind (source : Bytes) (d line position : Nat) : Prop :=
  line < 2 ^ 16 ∧ (line + d) % 2 ^ 16 = (1 + (source.take position).count 10) % 2 ^ 16

/-- A round passes blanks and comments, whose line ends it counts, or a token. -/
def Round.Counts (source : Bytes) (position line : Nat) : Round → Prop
  | .blank position' line' => ∃ n k, position' = position + n ∧
      Passes (source.drop position) n k 0 ∧ line' = forward line k
  | .token t position' => ∃ n k, position' = position + n ∧
      Passes (source.drop position) n 0 k ∧ t.line = line ∧
      (source.take t.start).count 10 = (source.take position).count 10
  | .error _ => True

variable {source text : Bytes} {n position line : Nat}

private theorem passes_takeWhile {p : UInt8 → Bool}
    (hp : ∀ c, p c = true → c ≠ 34 ∧ c ≠ 35 ∧ c ≠ 47 ∧ c ≠ 10) (text : Bytes) :
    Passes text (text.takeWhile p).length 0 0 := by
  induction text with
  | nil => exact ⟨le_rfl, rfl, rfl⟩
  | cons c text ih =>
    cases hc : p c with
    | false => simp [Passes, hc]
    | true =>
      obtain ⟨hle, hcount, hhidden⟩ := ih
      obtain ⟨hquote, hhash, hslash, hline⟩ := hp c hc
      rw [takeWhile_cons_of_pos hc]
      refine ⟨Nat.succ_le_succ hle, ?_, ?_⟩
      · simpa [hline] using hcount
      · simpa [hidden, Mode.next, hquote, hhash, hslash] using hhidden

private theorem hidden_comment (text : Bytes) :
    hidden .comment text = hidden .code (text.drop (text.takeWhile (· != 10)).length) := by
  induction text with
  | nil => rfl
  | cons c text ih =>
    by_cases hc : c = 10
    · subst hc
      rfl
    · simpa [hidden, Mode.next, hc] using ih

private theorem passes_comment {c : UInt8} (hc : c = 35 ∨ c = 47 ∧ text.head? = some 47) :
    Passes (c :: text) ((c :: text).takeWhile (· != 10)).length 0 0 := by
  have hpre := takeWhile_prefix (l := c :: text) (· != 10)
  refine ⟨hpre.length_le, ?_, ?_⟩
  · rw [← prefix_iff_eq_take.mp hpre, count_eq_zero]
    exact fun hmem => absurd (mem_takeWhile_imp hmem) (by decide)
  · have hmode : Mode.next .code c text = .comment := by grind [Mode.next]
    have hne : (c != 10) = true := by grind
    rw [hidden, hmode, hidden_comment,
      takeWhile_cons_of_pos (p := (· != 10)) hne]
    rfl

private theorem passes_string (h : stringLength text = some n) :
    ∃ k, Passes (34 :: text) (n + 2) 0 k := by
  have hstring : n < text.length ∧
      hidden .string text = (text.take (n + 1)).count 10 + hidden .code (text.drop (n + 1)) := by
    fun_induction stringLength generalizing n with
    | case1 | case3 => cases h
    | case2 text =>
      cases h
      simp [hidden, Mode.next]
    | case4 c text ih =>
      obtain ⟨m, hm, rfl⟩ := Option.map_eq_some_iff.mp h
      obtain ⟨hlt, heq⟩ := ih hm
      refine ⟨by simpa using hlt, ?_⟩
      simp [hidden, Mode.next, count_cons, heq]
      omega
    | case5 c text hquote hline hescape ih =>
      obtain ⟨m, hm, rfl⟩ := Option.map_eq_some_iff.mp h
      obtain ⟨hlt, heq⟩ := ih hm
      have hc : c ≠ 92 := by
        rintro rfl
        cases text with
        | nil => cases hm
        | cons d text => exact hescape d text rfl rfl
      refine ⟨by simpa using hlt, ?_⟩
      rw [hidden, Mode.next, if_neg hquote, if_neg hc, heq]
      simp [show c ≠ 10 from hline]
  refine ⟨(text.take (n + 1)).count 10, Nat.succ_le_succ hstring.1, ?_, ?_⟩
  · simp
  · simpa [hidden, Mode.next] using hstring.2

private theorem passes_single {c : UInt8} (hc : c ≠ 34 ∧ c ≠ 35 ∧ c ≠ 10)
    (hcomment : ¬(c = 47 ∧ text.head? = some 47)) : Passes (c :: text) 1 0 0 := by
  simp [Passes, hidden, Mode.next, hc, hcomment]

private theorem passes_punctuation {kind : TokenKind} (h : punctuation text = some (kind, n))
    (hcomment : ¬(text.headD 0 = 47 ∧ (text.drop 1).head? = some 47)) : Passes text n 0 0 := by
  have hassign : ∀ {c : UInt8} {next : Bytes}, c ≠ 34 ∧ c ≠ 35 ∧ c ≠ 10 →
      next.head? = some 61 → Passes (c :: next) 2 0 0 := by
    intro c next hc hnext
    obtain ⟨next, rfl⟩ := head?_eq_some_iff.mp hnext
    simp [Passes, hidden, Mode.next, hc]
  unfold punctuation at h
  dsimp only at h
  split at h
  all_goals
    first
    | cases h
      exact passes_single (by decide) hcomment
    | split at h
      · cases h
        exact hassign (by decide) ‹_›
      · cases h
        exact passes_single (by decide) hcomment
    | cases h

private theorem scan_counts (hlen : source.length < 2 ^ 16) (hpos : position < source.length)
    (hline : line < 2 ^ 16) : (scan source position line).Counts source position line := by
  obtain ⟨c, text, htext⟩ : ∃ c text, source.drop position = c :: text :=
    ⟨_, _, (getElem_cons_drop hpos).symm⟩
  have hforward : ∀ {n j k : Nat}, Passes (c :: text) n j k →
      forward position n = position + n := by
    rintro n j k ⟨hle, -⟩
    have hlength := congrArg length htext
    rw [length_drop] at hlength
    exact Nat.mod_eq_of_lt (by omega)
  have hskip : ∀ {n : Nat}, Passes (c :: text) n 0 0 →
      (Round.blank (forward position n) line).Counts source position line :=
    fun hpass => ⟨_, 0, hforward hpass, htext ▸ hpass, (Nat.mod_eq_of_lt hline).symm⟩
  have htake : ∀ {n length : Nat} {kind : TokenKind} {number : Int32}, Passes (c :: text) n 0 0 →
      (Round.token ⟨kind, position, length, line, number⟩ (forward position n)).Counts
        source position line :=
    fun hpass => ⟨_, 0, hforward hpass, htext ▸ hpass, rfl, rfl⟩
  have hplain : ∀ c, (nameStart c || digit c) = true → c ≠ 34 ∧ c ≠ 35 ∧ c ≠ 47 ∧ c ≠ 10 := by
    intro c hc
    refine ⟨?_, ?_, ?_, ?_⟩ <;> rintro rfl <;> exact absurd hc (by decide)
  simp only [scan, htext, headD_cons, drop_succ_cons, drop_zero]
  split
  · next hc => exact hskip (passes_single (by grind) (by grind))
  split
  · next hc =>
    subst hc
    have hpass : Passes (10 :: text) 1 1 0 := by simp [Passes, hidden, Mode.next]
    exact ⟨1, 1, hforward hpass, htext ▸ hpass, rfl⟩
  split
  · next hc => exact hskip (passes_comment (.inl hc))
  split
  · next hc => exact hskip (passes_comment (.inr hc))
  split
  · exact htake (passes_takeWhile hplain _)
  split
  · split
    · trivial
    · exact htake (passes_takeWhile (fun c hc => hplain c (by rw [hc, Bool.or_true])) _)
  split
  · next hc =>
    subst hc
    split
    · trivial
    · next hlength =>
      have hstart : forward position 1 = position + 1 := Nat.mod_eq_of_lt (by omega)
      rw [hstart, ← drop_drop, htext] at hlength
      obtain ⟨k, hpass⟩ := passes_string hlength
      refine ⟨_, k, ?_, htext ▸ hpass, rfl, ?_⟩
      · rw [← hforward hpass, hstart, forward, forward, Nat.add_assoc, Nat.add_comm 1]
      · rw [hstart, take_add, htext]
        simp
  · next hquote =>
    split
    · trivial
    · next hkind => exact htake (passes_punctuation hkind (by grind))

private theorem hidden_le (mode : Mode) (text : Bytes) : hidden mode text ≤ text.length := by
  induction text generalizing mode with
  | nil => exact le_rfl
  | cons c text ih =>
    have := ih (mode.next c text)
    rw [hidden, length_cons]
    split <;> omega

private theorem Behind.pass {d j k : Nat} (h : Behind source d line position)
    (hpass : Passes (source.drop position) n j k) :
    Behind source (d + k) (forward line j) (position + n) := by
  obtain ⟨-, heq⟩ := h
  refine ⟨Nat.mod_lt _ (by decide), ?_⟩
  rw [take_add, count_append, hpass.2.1, forward]
  omega

private theorem addToken_eq {tokens more : List Token} {t : Token}
    (h : addToken tokens t = .ok more) : more = tokens ++ [t] := by
  rw [addToken] at h
  split at h
  · cases h
  · exact (Except.ok.inj h).symm

private theorem tokenizeFrom_behind {tokens result : List Token} (hlen : source.length < 2 ^ 16)
    (fuel d : Nat) (hpos : position ≤ source.length) (hline : Behind source d line position)
    (hd : d + hidden .code (source.drop position) = hidden .code source)
    (htokens : ∀ t ∈ tokens, ∃ k ≤ hidden .code source, Behind source k t.line t.start)
    (h : tokenizeFrom source fuel position line tokens = .ok (.ok result)) :
    (∀ t ∈ result, ∃ k ≤ hidden .code source, Behind source k t.line t.start) ∧
      ∃ t ∈ result, t.start = source.length ∧
        Behind source (hidden .code source) t.line source.length := by
  induction fuel generalizing position line d tokens with
  | zero => cases h
  | succ fuel ih =>
    rw [tokenizeFrom] at h
    split at h
    · next hend =>
      obtain rfl := Nat.le_antisymm hpos hend
      rw [drop_length] at hd
      obtain rfl := hd
      rw [addToken_eq (Except.ok.inj h)]
      refine ⟨forall_mem_append.mpr ⟨htokens, ?_⟩, _, mem_concat_self, rfl, hline⟩
      exact forall_mem_singleton.mpr ⟨_, le_rfl, hline⟩
    · next hlt =>
      have hcounts := scan_counts hlen (Nat.lt_of_not_le hlt) hline.1
      have hnext : ∀ {n j k : Nat}, Passes (source.drop position) n j k →
          position + n ≤ source.length ∧
            d + k + hidden .code (source.drop (position + n)) = hidden .code source := by
        rintro n j k ⟨hle, -, hhidden⟩
        rw [length_drop] at hle
        rw [← drop_drop]
        omega
      split at h
      · cases h
      · next hscan =>
        rw [hscan] at hcounts
        obtain ⟨n, k, rfl, hpass, rfl⟩ := hcounts
        exact ih _ (hnext hpass).1 (hline.pass hpass) (hnext hpass).2 htokens h
      · next hscan =>
        rw [hscan] at hcounts
        obtain ⟨n, k, rfl, hpass, htoken, hstart⟩ := hcounts
        split at h
        · cases h
        · next hadd =>
          have hpassed := hline.pass hpass
          rw [forward, Nat.add_zero, Nat.mod_eq_of_lt hline.1] at hpassed
          rw [addToken_eq hadd] at h
          refine ih _ (hnext hpass).1 hpassed (hnext hpass).2
            (forall_mem_append.mpr ⟨htokens, forall_mem_singleton.mpr ⟨d, by omega, ?_⟩⟩) h
          rw [Behind, htoken, hstart]
          exact hline

/-- The lines of the tokens are right exactly if no string escapes a line end and the line counter
does not wrap. -/
theorem token_lines_iff {tokens : List Token} (hlen : source.length ≤ 65535)
    (h : tokenize source = .ok (.ok tokens)) :
    (∀ t ∈ tokens, t.line = 1 + (source.take t.start).count 10) ↔
      hidden .code source = 0 ∧ source ≠ replicate 65535 10 := by
  obtain ⟨hall, t, ht, hstart, hsmall, hend⟩ := tokenizeFrom_behind (by omega) _ 0 (Nat.zero_le _)
    ⟨by decide, rfl⟩ (Nat.zero_add _) (fun t ht => absurd ht not_mem_nil) h
  have hle := hidden_le .code source
  constructor
  · intro hright
    have hline := hright t ht
    rw [hstart] at hline
    refine ⟨by omega, ?_⟩
    rintro rfl
    rw [take_length, count_replicate_self] at hline
    omega
  · rintro ⟨hhidden, hne⟩ t ht
    obtain ⟨k, hk, hlt, heq⟩ := hall t ht
    have hcount : (source.take t.start).count 10 < 65535 := by
      have htake : (source.take t.start).count 10 ≤ source.count 10 := (take_sublist ..).count_le 10
      have hlength : source.count 10 ≤ source.length := count_le_length
      by_contra hge
      apply hne
      rw [eq_replicate_iff]
      have hall : source.count 10 = source.length := by omega
      exact ⟨by omega, fun c hc => (count_eq_length.mp hall c hc).symm⟩
    omega

/-- A name behind a line end. -/
theorem token_lines_second : ∃ tokens, tokenize [10, 120] = .ok (.ok tokens) ∧
    ∀ t ∈ tokens, t.line = 1 + (take t.start ([10, 120] : Bytes)).count 10 := by
  refine ⟨_, rfl, (@token_lines_iff [10, 120] _ (by decide) rfl).mpr ⟨rfl, fun h => ?_⟩⟩
  have hlength := congrArg length h
  rw [length_replicate] at hlength
  cases hlength

/-- The name behind a string with an escaped line end is on the second line, not on the first. -/
theorem escaped_line_uncounted : ∃ tokens, tokenize [34, 92, 10, 34, 120] = .ok (.ok tokens) ∧
    ∃ t ∈ tokens, t.kind = .identifier ∧ t.line = 1 ∧
      1 + (take t.start ([34, 92, 10, 34, 120] : Bytes)).count 10 = 2 :=
  ⟨_, rfl, _, mem_cons_of_mem _ mem_cons_self, rfl, rfl, rfl⟩

end NasuaOS.SuaScript
