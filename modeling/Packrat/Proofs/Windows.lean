import Packrat.Session.Window
import Packrat.Proofs.Sessions
import Mathlib.Data.List.Sort

/-!
# What the window shows

The first line of the window shows the characters that are no further from the cursor than the print range, and the
brackets of the ends of the input that are so near. The caret stands in the column of the cursor. Sums of positions
that are too large to be counted do no harm, as the input itself is shorter than that.
-/

namespace Packrat

namespace Session

variable {s : Session} {first last size : Nat} {p : Nat → Bool}

def inSight (s : Session) (position : Nat) : Bool :=
  s.cursor ≤ position + s.printRange ∧ position ≤ s.cursor + s.printRange

def charsAt (s : Session) (p : Nat → Bool) : List Char :=
  ((List.range s.length).filter p).filterMap fun position => s.input[position]?

/-- The bracket at the beginning of the input, if that is in sight. -/
def opening (s : Session) : List Char := if s.cursor ≤ s.printRange then ['['] else []

def closing (s : Session) : List Char := if s.length ≤ s.cursor + s.printRange then [']'] else []

/-! ## Positions in sight -/

theorem filter_range_eq_range' (hlast : last ≤ size)
    (hp : ∀ position < size, p position = true ↔ first ≤ position ∧ position < last) :
    (List.range size).filter p = List.range' first (last - first) := by
  refine List.Pairwise.eq_of_mem_iff (r := (· < ·)) (List.pairwise_lt_range.filter p) List.pairwise_lt_range' ?_
  intro position
  rw [List.mem_filter, List.mem_range, List.mem_range'_1]
  constructor
  · rintro ⟨hlt, hmem⟩
    have hbounds := (hp position hlt).1 hmem
    omega
  · intro hbounds
    exact ⟨by omega, (hp position (by omega)).2 (by omega)⟩

theorem charsAt_eq_map (s : Session) (p : Nat → Bool) :
    s.charsAt p = ((List.range s.length).filter p).map s.shownAt := by
  refine List.filterMap_eq_map_iff_forall_eq_some.2 fun position hmem => ?_
  have hlt : position < s.input.size := List.mem_range.1 (List.mem_of_mem_filter hmem)
  simp [shownAt, hlt]

theorem windowLast_eq (hlength : s.length ≤ largestPosition) :
    s.windowLast = min (s.cursor + s.printRange) s.length := by
  unfold windowLast addPositions
  omega

theorem windowFirst_le_cursor (s : Session) : s.windowFirst ≤ s.cursor := Nat.sub_le ..

theorem cursor_le_windowLast (hcursor : s.cursor ≤ s.length) (hlength : s.length ≤ largestPosition) :
    s.cursor ≤ s.windowLast := by
  rw [windowLast_eq hlength]
  omega

theorem inSight_iff {position : Nat} (hlength : s.length ≤ largestPosition) (hposition : position ≤ s.length) :
    s.inSight position = true ↔ s.windowFirst ≤ position ∧ position < s.windowLast + 1 := by
  rw [windowLast_eq hlength]
  simp only [inSight, windowFirst, decide_eq_true_eq]
  omega

theorem opening_eq (s : Session) : s.opening = if s.windowFirst = 0 then ['['] else [] := by
  simp [opening, windowFirst, Nat.sub_eq_zero_iff_le]

/-- The last position is that of the closing bracket. -/
theorem map_shownAt_inSight (hcursor : s.cursor ≤ s.length) :
    ((List.range (s.length + 1)).filter s.inSight).map s.shownAt = s.charsAt s.inSight ++ s.closing := by
  have hnear : s.cursor ≤ s.length + s.printRange := Nat.le_add_right_of_le hcursor
  have hbracket : s.shownAt s.length = ']' := by simp [shownAt, length]
  rw [List.range_succ, List.filter_append, List.map_append, charsAt_eq_map, List.filter_singleton, closing]
  by_cases hend : s.length ≤ s.cursor + s.printRange
  · simp [inSight, hnear, hend, hbracket]
  · simp [inSight, hend]

/-- What is shown are the characters in sight, between the brackets in sight. -/
theorem windowText_eq (hcursor : s.cursor ≤ s.length) (hlength : s.length ≤ largestPosition) :
    s.windowText = s.opening ++ s.charsAt s.inSight ++ s.closing := by
  have hlast : s.windowLast + 1 ≤ s.length + 1 := Nat.succ_le_succ (Nat.min_le_right ..)
  have hpositions := filter_range_eq_range' hlast fun position hlt => inSight_iff hlength (Nat.le_of_lt_succ hlt)
  rw [List.append_assoc, ← map_shownAt_inSight hcursor, hpositions, opening_eq, windowText]

/-! ## The caret -/

/-- The characters in sight before the cursor are those from the first position to the cursor. -/
theorem length_charsAt_before (hcursor : s.cursor ≤ s.length) (hlength : s.length ≤ largestPosition) :
    (s.charsAt fun position => s.inSight position && position < s.cursor).length = s.cursor - s.windowFirst := by
  have hle := cursor_le_windowLast hcursor hlength
  have hpositions : (List.range s.length).filter (fun position => s.inSight position && position < s.cursor) =
      List.range' s.windowFirst (s.cursor - s.windowFirst) := by
    refine filter_range_eq_range' hcursor fun position hlt => ?_
    rw [Bool.and_eq_true, decide_eq_true_eq, inSight_iff hlength (Nat.le_of_lt hlt)]
    omega
  rw [charsAt_eq_map, hpositions, List.length_map, List.length_range']

theorem caretColumn_eq (hcursor : s.cursor ≤ s.length) (hlength : s.length ≤ largestPosition) :
    s.caretColumn = (s.opening ++ s.charsAt fun position => s.inSight position && position < s.cursor).length := by
  rw [List.length_append, length_charsAt_before hcursor hlength, opening_eq, caretColumn]
  split
  · exact Nat.add_comm ..
  · simp

/-- In the column of the caret stands what is under the cursor. -/
theorem windowText_caretColumn (hcursor : s.cursor ≤ s.length) (hlength : s.length ≤ largestPosition) :
    s.windowText[s.caretColumn]? = some (s.shownAt s.cursor) := by
  have hfirst := s.windowFirst_le_cursor
  have hlast := cursor_le_windowLast hcursor hlength
  have hshown : (List.range' s.windowFirst (s.windowLast + 1 - s.windowFirst))[s.cursor - s.windowFirst]? =
      some s.cursor := by
    rw [List.getElem?_range' (by omega)]
    congr 1
    omega
  have hcolumn : s.caretColumn = s.opening.length + (s.cursor - s.windowFirst) := by
    rw [caretColumn_eq hcursor hlength, List.length_append, length_charsAt_before hcursor hlength]
  rw [hcolumn, windowText, ← opening_eq, List.getElem?_append_right (Nat.le_add_right ..), Nat.add_sub_cancel_left,
    List.getElem?_map, hshown, Option.map_some]

/-- The window shows exactly the characters that are no further from the cursor than the print range, in order,
between the brackets of the ends that are in sight; and the caret is preceded by as many spaces as characters are
shown before the one under the cursor. No difference of positions is cut off on the way, and no sum grows beyond what
can be counted: every text in memory is shorter than the largest position, whatever the print range may be. -/
theorem window_points_at_cursor (hcursor : s.cursor ≤ s.length) (hlength : s.length < largestPosition) :
    (s.windowFirst ≤ s.cursor ∧ s.cursor ≤ s.windowLast ∧ s.windowLast ≤ s.length ∧
      s.caretColumn ≤ largestPosition) ∧
    ∃ column, s.window =
        String.ofList (s.opening ++ s.charsAt s.inSight ++ s.closing) ++ "\n" ++ Text.spaces column ++ "^" ∧
      column = (s.opening ++ s.charsAt fun position => s.inSight position && position < s.cursor).length ∧
      (s.opening ++ s.charsAt s.inSight ++ s.closing)[column]? = some (s.shownAt s.cursor) := by
  have hle := Nat.le_of_lt hlength
  have hlast := cursor_le_windowLast hcursor hle
  refine ⟨⟨s.windowFirst_le_cursor, hlast, Nat.min_le_right .., ?_⟩, s.caretColumn, ?_, ?_, ?_⟩
  · unfold caretColumn
    split <;> omega
  · rw [window, windowText_eq hcursor hle]
  · exact caretColumn_eq hcursor hle
  · rw [← windowText_eq hcursor hle]
    exact windowText_caretColumn hcursor hle

/-- A sum with the cursor on its second number, and the largest print range there is. -/
def widest : Session := (start "1+25+7" { printRange := largestPosition }).seek 2

/-- The whole sum is in sight, and the caret stands under the first digit of the second number. -/
theorem widest_window_points_at_cursor :
    widest.window = "[1+25+7]\n   ^" ∧ "[1+25+7]".toList[3]? = some (widest.shownAt 2) := by
  obtain ⟨_, column, hwindow, hcolumn, hunder⟩ := window_points_at_cursor (s := widest) (by decide) (by decide)
  have hline : widest.opening ++ widest.charsAt widest.inSight ++ widest.closing = "[1+25+7]".toList := by decide
  obtain rfl : column = 3 := hcolumn.trans (by decide)
  rw [hline] at hwindow hunder
  exact ⟨hwindow.trans (by decide), hunder⟩

example : ((start "abcdefghij" { printRange := 2 }).seek 10).window = "ij]\n  ^" := by decide

end Session

end Packrat
