import Mathlib.Data.List.Basic
import NasuaOS.Libc.Strings

/-!
# Lines of a page

`src/utilities/applications/WebBrowser/src/WebBrowser.cpp:4253–4283,4447–4532`. A document is broken
into lines of at most 119 characters. A separator may take the last of the 120 places of the buffer;
it is what `browser_add_line` then cuts off. Alignment and the range of a line are left out.
-/

namespace NasuaOS.Browser

open Base Libc List

/-- `' '`. -/
def space : UInt8 := 32

/-- `'\n'`. -/
def newline : UInt8 := 10

/-- `BROWSER_MAX_LINES`. -/
def maxLines : Nat := 768

/-- `BROWSER_LINE_MAX`. -/
def lineMax : Nat := 120

/-- What is read of the page: the width of the content at an offset, which the boxes decide, the
columns of the window and the preformatted characters. -/
structure Page where
  contentWidth : Nat → Int
  columns : Int
  preformatted : Nat → Bool

/-- `browser_columns_at_offset`. -/
def Page.columnsAt (page : Page) (offset : Nat) : Int :=
  min (max ((page.contentWidth offset).tdiv 9) 1) page.columns

/-- The lines, the line that is filled, each character with its offset, `browser_truncated`, and
whether a character was written behind the buffer of the line. -/
structure Layout where
  lines : List (List (UInt8 × Nat))
  line : List (UInt8 × Nat)
  truncated : Bool
  overrun : Bool

namespace Layout

/-- `browser_add_line`. -/
def addLine (s : Layout) : Layout :=
  if maxLines ≤ s.lines.length then { s with truncated := true }
  else { s with lines := s.lines ++ [s.line.take (lineMax - 1)] }

/-- `flush_line`, under a condition. -/
def flushIf (test : Prop) [Decidable test] (s : Layout) : Layout :=
  if test then { s.addLine with line := [] } else s

/-- Write a character behind the line. -/
def put (c : UInt8) (offset : Nat) (s : Layout) : Layout :=
  if s.line.length < lineMax then { s with line := s.line ++ [(c, offset)] }
  else { s with overrun := true }

/-- Before a word: a new line, or a separator. -/
def startWord (available : Int) (index : Nat) (s : Layout) : Layout :=
  let s := s.flushIf (s.line ≠ [] ∧ available ≤ s.line.length + 1)
  if s.line ≠ [] ∧ s.line.getLast?.map Prod.fst ≠ some space then s.put space (index - 1) else s

/-- A character of a word. -/
def putWord (available : Int) (c : UInt8) (index : Nat) (s : Layout) : Layout :=
  let s := s.flushIf (available ≤ s.line.length)
  (s.flushIf (lineMax - 1 ≤ s.line.length)).put c index

end Layout

/-- One character. A word keeps the columns of its first character. -/
def layoutStep (page : Page) : Option Int × Layout → UInt8 × Nat → Option Int × Layout
  | (word, s), (c, index) =>
    let available := word.getD (page.columnsAt index)
    if c = newline then (none, s.flushIf True)
    else if c = space then
      let available := page.columnsAt index
      (none, if page.preformatted index then
        (s.flushIf (available ≤ s.line.length ∨ lineMax - 1 ≤ s.line.length)).put space index
        else s)
    else
      let s := if word = none then s.startWord available index else s
      (some available, s.putWord available c index)

/-- The first part of `browser_layout_document`. -/
def browserLayoutDocument (page : Page) (document : Bytes) (sourceTruncated : Bool) : Layout :=
  let s := (document.zipIdx.foldl (layoutStep page) (none, ⟨[], [], sourceTruncated, false⟩)).2
  s.flushIf (s.line ≠ [] ∨ s.lines = [])

/-- The characters that are not spaces. -/
def inked (line : List (UInt8 × Nat)) : List (UInt8 × Nat) := line.filter (·.1 ≠ space)

variable {s t u : Layout} {page : Page} {available : Int} {index : Nat} {c : UInt8}
  {more rest : List (UInt8 × Nat)}

/-- From one layout to another the characters `more` are added, unless lines are left out. -/
structure Adds (s t : Layout) (more : List (UInt8 × Nat)) : Prop where
  text : t.truncated = false → s.truncated = false ∧
    inked (t.lines.flatten ++ t.line) = inked (s.lines.flatten ++ s.line) ++ more
  short : (∀ line ∈ s.lines, line.length < lineMax) → ∀ line ∈ t.lines, line.length < lineMax
  overrun : t.overrun = s.overrun

/-- All that does not fit in a line is a separator. -/
def Cut (s : Layout) : Prop :=
  s.line.length ≤ lineMax ∧ ∀ p ∈ s.line.drop (lineMax - 1), p.1 = space

private theorem Adds.refl (s : Layout) : Adds s s [] := by constructor <;> simp

private theorem Adds.trans (h : Adds s t more) (h' : Adds t u rest) : Adds s u (more ++ rest) := by
  constructor <;> grind [Adds]

private theorem cut_of_length (h : s.line.length < lineMax) : Cut s := by
  have hdrop : s.line.drop (lineMax - 1) = [] := drop_eq_nil_of_le (by grind [lineMax])
  exact ⟨Nat.le_of_lt h, by simp [hdrop]⟩

private theorem flushIf_adds (h : Cut s) (test : Prop) [Decidable test] : Adds s (s.flushIf test) [] ∧
    Cut (s.flushIf test) ∧ (test → (s.flushIf test).line = []) ∧ (¬ test → s.flushIf test = s) := by
  have hinked : inked (s.line.take (lineMax - 1)) = inked s.line := by
    have hnone : inked (s.line.drop (lineMax - 1)) = [] := by
      simpa [inked, filter_eq_nil_iff] using h.2
    have hall := congrArg inked (take_append_drop (lineMax - 1) s.line)
    rwa [inked, filter_append, ← inked, ← inked, hnone, append_nil] at hall
  rw [Layout.flushIf]
  split
  · refine ⟨⟨?_, ?_, ?_⟩, ?_⟩ <;> grind [Layout.addLine, inked, lineMax, Cut]
  · exact ⟨.refl s, h, by grind⟩

private theorem put_adds (h : s.line.length < lineMax) :
    Adds s (s.put c index) (inked [(c, index)]) ∧ (s.put c index).line = s.line ++ [(c, index)] := by
  rw [Layout.put, if_pos h]
  exact ⟨⟨fun ht => ⟨ht, by simp [inked]⟩, id, rfl⟩, rfl⟩

private theorem flush_put {test : Prop} [Decidable test] (h : Cut s)
    (hroom : ¬ test → s.line.length < lineMax - 1) :
    Adds s ((s.flushIf test).put c index) (inked [(c, index)]) ∧
      ((s.flushIf test).put c index).line.length < lineMax := by
  obtain ⟨hadds, -, hempty, hsame⟩ := flushIf_adds h test
  have hlength : (s.flushIf test).line.length < lineMax - 1 := by
    by_cases htest : test <;> grind [lineMax]
  obtain ⟨hput, hline⟩ := @put_adds _ index c (Nat.lt_of_lt_of_le hlength (Nat.sub_le _ _))
  exact ⟨hadds.trans hput, by grind⟩

private theorem startWord_adds (h : s.line.length < lineMax) :
    Adds s (s.startWord available index) [] ∧ Cut (s.startWord available index) := by
  obtain ⟨hadds, hcut, hempty, hsame⟩ := flushIf_adds (cut_of_length h)
    (s.line ≠ [] ∧ available ≤ s.line.length + 1)
  rw [Layout.startWord]
  generalize s.flushIf (s.line ≠ [] ∧ available ≤ s.line.length + 1) = t at *
  obtain ⟨hput, hline⟩ := @put_adds t (index - 1) space (by grind [lineMax])
  split
  · refine ⟨hadds.trans hput, by grind, fun p hp => ?_⟩
    rw [hline, drop_append, drop_eq_nil_of_le (by grind)] at hp
    grind
  · exact ⟨hadds, hcut⟩

private theorem putWord_adds (h : Cut s) : Adds s (s.putWord available c index) (inked [(c, index)]) ∧
    (s.putWord available c index).line.length < lineMax := by
  obtain ⟨hadds, hcut, -⟩ := flushIf_adds h (available ≤ s.line.length)
  have hput := @flush_put _ index c _ _ hcut Nat.lt_of_not_le
  exact ⟨hadds.trans hput.1, hput.2⟩

private theorem layoutStep_adds (h : s.line.length < lineMax) (word : Option Int) :
    Adds s (layoutStep page (word, s) (c, index)).2
        ([(c, index)].filter fun p => p.1 ≠ space ∧ p.1 ≠ newline) ∧
      (layoutStep page (word, s) (c, index)).2.line.length < lineMax := by
  have hcut := cut_of_length h
  rw [layoutStep]
  split
  · next hc =>
    obtain ⟨hadds, -, hempty, -⟩ := flushIf_adds hcut True
    exact ⟨by simpa [hc] using hadds, by simp [hempty, lineMax]⟩
  split
  · next hc =>
    split
    · have hput := @flush_put s index space
        (page.columnsAt index ≤ s.line.length ∨ lineMax - 1 ≤ s.line.length) _ hcut (by omega)
      exact ⟨by simpa [hc, inked] using hput.1, hput.2⟩
    · exact ⟨by simpa [hc] using Adds.refl s, h⟩
  · next hnewline hspace =>
    have hone : [(c, index)].filter (fun p => p.1 ≠ space ∧ p.1 ≠ newline) = inked [(c, index)] := by
      simp [inked, hspace, hnewline]
    rw [hone]
    split
    · obtain ⟨hstart, hcut⟩ := @startWord_adds s (word.getD (page.columnsAt index)) index h
      exact ⟨hstart.trans (putWord_adds hcut).1, (putWord_adds hcut).2⟩
    · exact putWord_adds hcut

private theorem layout_adds (document : List (UInt8 × Nat)) (word : Option Int)
    (h : s.line.length < lineMax) :
    Adds s (document.foldl (layoutStep page) (word, s)).2
        (document.filter fun p => p.1 ≠ space ∧ p.1 ≠ newline) ∧
      (document.foldl (layoutStep page) (word, s)).2.line.length < lineMax := by
  induction document generalizing word s with
  | nil => exact ⟨.refl s, h⟩
  | cons p rest ih =>
    obtain ⟨hadds, hline⟩ := @layoutStep_adds s page p.2 p.1 h word
    obtain ⟨hmore, hlast⟩ := ih (layoutStep page (word, s) p).1 hline
    exact ⟨filter_append [p] rest ▸ hadds.trans hmore, hlast⟩

/-- Unless the page is truncated, the lines show every character but spaces and newlines once, in
the order of the document, with its offset. No line has more than 119 characters, and nothing is
written behind the buffer. -/
theorem layout_keeps_text (page : Page) (document : CString) (sourceTruncated : Bool) :
    let s := browserLayoutDocument page document.val sourceTruncated
    (s.truncated = false → inked s.lines.flatten =
      document.val.zipIdx.filter fun p => p.1 ≠ space ∧ p.1 ≠ newline) ∧
    (∀ line ∈ s.lines, line.length ≤ lineMax - 1) ∧ s.overrun = false := by
  obtain ⟨hadds, hline⟩ := @layout_adds ⟨[], [], sourceTruncated, false⟩ page document.val.zipIdx
    none (Nat.zero_lt_succ _)
  rw [browserLayoutDocument]
  generalize (document.val.zipIdx.foldl (layoutStep page)
    (none, ⟨[], [], sourceTruncated, false⟩)).2 = s at *
  obtain ⟨hflush, -, hempty, hsame⟩ :=
    flushIf_adds (cut_of_length hline) (s.line ≠ [] ∨ s.lines = [])
  generalize s.flushIf (s.line ≠ [] ∨ s.lines = []) = t at *
  have hall := hadds.trans hflush
  have hnil : t.line = [] := by grind
  refine ⟨fun htruncated => ?_, fun line hmem => ?_, hall.overrun⟩
  · simpa [hnil, inked] using (hall.text htruncated).2
  · exact Nat.le_of_lt_succ (hall.short (by simp) line hmem)

end NasuaOS.Browser
