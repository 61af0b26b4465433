import Mathlib.Data.List.Basic
import Mathlib.Tactic.Common

/-!
# The lines of a text

A line ends with a line feed, and the carriage return before it is not part of it; what
follows the last line feed is a line too, if there is anything.
-/

namespace Foundations

/-- The text cut after every line feed. -/
def splitInclusive : List Char → List (List Char)
  | [] => []
  | c :: cs =>
    if c = '\n' then [c] :: splitInclusive cs
    else match splitInclusive cs with
      | [] => [[c]]
      | line :: lines => (c :: line) :: lines

/-- A line without its end. -/
def withoutEnd (line : List Char) : List Char :=
  if line.getLast? = some '\n' then
    let line := line.dropLast
    if line.getLast? = some '\r' then line.dropLast else line
  else line

/-- The lines of a text, without their ends. -/
def lines (text : List Char) : List (List Char) := (splitInclusive text).map withoutEnd

variable {text rest line part : List Char}

/-- The first line and the lines after it. -/
theorem splitInclusive_line (h : '\n' ∉ line) :
    splitInclusive (line ++ '\n' :: rest) = (line ++ ['\n']) :: splitInclusive rest := by
  induction line with
  | nil => rw [List.nil_append, splitInclusive, if_pos rfl, List.nil_append]
  | cons c line ih =>
    obtain ⟨hc, hline⟩ := not_or.mp (List.mem_cons.not.mp h)
    rw [List.cons_append, splitInclusive, if_neg (Ne.symm hc), ih hline, List.cons_append]

theorem splitInclusive_last (h : '\n' ∉ line) (hne : line ≠ []) : splitInclusive line = [line] := by
  induction line with
  | nil => exact absurd rfl hne
  | cons c line ih =>
    obtain ⟨hc, hline⟩ := not_or.mp (List.mem_cons.not.mp h)
    rw [splitInclusive, if_neg (Ne.symm hc)]
    by_cases hnil : line = []
    · rw [hnil, splitInclusive]
    · rw [ih hline hnil]

theorem lines_line (h : '\n' ∉ line) (h' : '\r' ∉ line) :
    lines (line ++ '\n' :: rest) = line :: lines rest := by
  have hreturn : line.getLast? ≠ some '\r' := fun hlast => h' (List.mem_of_getLast? hlast)
  rw [lines, splitInclusive_line h, List.map_cons, withoutEnd, List.getLast?_concat, if_pos rfl,
    List.dropLast_concat, if_neg hreturn, lines]

theorem lines_last (h : '\n' ∉ line) (hne : line ≠ []) : lines line = [line] := by
  have hend : line.getLast? ≠ some '\n' := fun hlast => h (List.mem_of_getLast? hlast)
  rw [lines, splitInclusive_last h hne, List.map_singleton, withoutEnd, if_neg hend]

/-- **A part of a text has no more lines than the text.** -/
theorem length_lines_of_part (h : part <+: text) : (lines part).length ≤ (lines text).length := by
  rw [lines, lines, List.length_map, List.length_map]
  induction part generalizing text with
  | nil => exact Nat.zero_le _
  | cons c part ih =>
    obtain ⟨rest, rfl⟩ := h
    have hle := ih (List.prefix_append part rest)
    rw [List.cons_append, splitInclusive, splitInclusive]
    split
    · exact Nat.succ_le_succ hle
    · -- the character joins the first line, or makes one
      revert hle
      cases splitInclusive part <;> cases splitInclusive (part ++ rest) <;> simp

end Foundations
