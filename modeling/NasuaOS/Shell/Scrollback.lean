import NasuaOS.Libc.Strings

/-!
# Scrollback of the terminal

`src/utilities/applications/terminal/src/terminal.cpp:171–245`. A row of the output is the list of
its characters before the terminator, each with its colour; the rows in use are a list.
-/

namespace NasuaOS.Shell

open List

/-- A character that is written, and its colour. -/
structure Cell where
  character : UInt8
  color : UInt32
  printed : character ≠ 0

/-- `clear_output()`. -/
def clearOutput : List (List Cell) := [[]]

/-- A row more, or every row moved up by one when `MAX_OUTPUT_LINES` are in use. -/
def newLine (output : List (List Cell)) : List (List Cell) :=
  if output.length < 64 then output ++ [[]] else output.drop 1 ++ [[]]

/-- `terminal_write_char_colored(character, color)`. -/
def writeChar (output : List (List Cell)) (c : Cell) : List (List Cell) :=
  let output := if output = [] then clearOutput else output
  if c.character = 13 then output
  else if c.character = 10 then newLine output
  else
    -- a full row is followed by a new one, in which the second call finds room
    let output := if (output.getLastD []).length + 1 < 192 then output else newLine output
    output.dropLast ++ [output.getLastD [] ++ [c]]

/-- Pieces of at most 191 characters. -/
def pieces (line : List Cell) : List (List Cell) :=
  if line.length ≤ 191 then [line] else line.take 191 :: pieces (line.drop 191)
termination_by line.length

/-- The last 64 lines. -/
def lastLines (lines : List (List Cell)) : List (List Cell) := lines.drop (lines.length - 64)

private theorem pieces_nil : pieces [] = [[]] := by
  rw [pieces]
  rfl

private theorem pieces_concat (line : List Cell) (c : Cell) :
    ∃ front last, pieces line = front ++ [last] ∧ pieces (line ++ [c]) =
      if last.length + 1 < 192 then front ++ [last ++ [c]] else front ++ [last] ++ [[c]] := by
  fun_induction pieces line with
  | case1 line hshort =>
    by_cases h : line.length < 191
    · rw [pieces, if_pos (by grind)]
      exact ⟨[], line, rfl, by grind⟩
    · rw [pieces, if_neg (by grind), pieces, if_pos (by grind)]
      exact ⟨[], line, rfl, by grind⟩
  | case2 line hlong ih =>
    obtain ⟨front, last, hfront, hafter⟩ := ih
    have hstep : pieces (line ++ [c]) = line.take 191 :: pieces (line.drop 191 ++ [c]) := by
      rw [pieces, if_neg (by grind), take_append_of_le_length (by omega),
        drop_append_of_le_length (by omega)]
    rw [hstep, hafter, hfront]
    exact ⟨line.take 191 :: front, last, rfl, by grind⟩

private theorem lastLines_concat (front : List (List Cell)) (last : List Cell) :
    lastLines (front ++ [last]) = front.drop (front.length - 63) ++ [last] := by
  grind [lastLines]

private theorem newLine_lastLines (lines : List (List Cell)) :
    newLine (lastLines lines) = lastLines (lines ++ [[]]) := by
  rw [lastLines_concat, newLine, lastLines, length_drop, drop_drop]
  split
  · rw [show lines.length - 64 = lines.length - 63 by omega]
  · rw [show lines.length - 64 + 1 = lines.length - 63 by omega]

private theorem writeChar_lastLines (front : List (List Cell)) (last : List Cell) (c : Cell) :
    writeChar (lastLines (front ++ [last])) c = lastLines (
      if c.character = 13 then front ++ [last]
      else if c.character = 10 then front ++ [last] ++ [[]]
      else if last.length + 1 < 192 then front ++ [last ++ [c]] else front ++ [last] ++ [[c]]) := by
  have hne : lastLines (front ++ [last]) ≠ [] := by grind [lastLines]
  have hlast : (lastLines (front ++ [last])).getLastD [] = last := by grind [lastLines]
  simp only [writeChar, if_neg hne, hlast, newLine_lastLines]
  split
  · rfl
  · split
    · rfl
    · split
      · rw [hlast, lastLines_concat, lastLines_concat, dropLast_concat]
      · rw [lastLines_concat, lastLines_concat, dropLast_concat, getLastD_concat]
        rfl

private theorem modifyHead_nil (lines : List (List Cell)) : lines.modifyHead ([] ++ ·) = lines := by
  cases lines <;> rfl

private theorem foldl_writeChar (front : List (List Cell)) (line text : List Cell) :
    text.foldl writeChar (lastLines (front ++ pieces line)) = lastLines (front ++
      (((text.filter (·.character != 13)).splitOnP (·.character == 10)).modifyHead
        (line ++ ·)).flatMap pieces) := by
  induction text generalizing front line with
  | nil => simp [splitOnP_nil]
  | cons c text ih =>
    obtain ⟨before, last, hline, hafter⟩ := pieces_concat line c
    rw [foldl_cons, hline, ← append_assoc, writeChar_lastLines]
    by_cases hreturn : c.character = 13
    · rw [if_pos hreturn, append_assoc, ← hline, ih]
      simp [hreturn]
    · rw [if_neg hreturn, filter_cons_of_pos (by simpa using hreturn), splitOnP_cons_eq_if_modifyHead]
      by_cases hnew : c.character = 10
      · rw [if_pos hnew, if_pos (by simpa using hnew), append_assoc front, ← hline, ← pieces_nil,
          ih, modifyHead_nil]
        simp
      · have hnext : (if last.length + 1 < 192 then front ++ before ++ [last ++ [c]]
            else front ++ before ++ [last] ++ [[c]]) = front ++ pieces (line ++ [c]) := by
          rw [hafter]
          split <;> simp
        rw [if_neg hnew, hnext, ih, if_neg (by simpa using hnew), modifyHead_modifyHead]
        simp [Function.comp_def]

/-- After `clear_output` the output is the last 64 of the lines of what is written: without carriage
returns, split at the newlines and cut into pieces of at most 191 characters with their colours. -/
theorem scrollback_lines (text : List Cell) :
    text.foldl writeChar clearOutput = lastLines
      (((text.filter (·.character != 13)).splitOnP (·.character == 10)).flatMap pieces) := by
  have h := foldl_writeChar [] [] text
  rwa [pieces_nil, modifyHead_nil] at h

end NasuaOS.Shell
