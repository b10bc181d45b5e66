import Packrat.Session
import Packrat.Text.Column

/-!
# The window

The input around the cursor on one line, and a caret under the cursor on the next. Brackets stand for
the two ends of the input where they are in sight; the closing one can itself be under the cursor.

    [1+25+7]
       ^
-/

namespace Packrat

namespace Session

/-- The largest position that can be counted. -/
def largestPosition : Nat := UInt64.size - 1

/-- A sum of positions; one that is too large to be counted stops at the largest. -/
def addPositions (a b : Nat) : Nat := min (a + b) largestPosition

def windowFirst (s : Session) : Nat := s.cursor - s.printRange

/-- The last position in sight; the end of the input is a position. -/
def windowLast (s : Session) : Nat := min (addPositions s.cursor s.printRange) s.length

def shownAt (s : Session) (position : Nat) : Char := (s.input[position]?).getD ']'

def windowText (s : Session) : List Char :=
  (if s.windowFirst = 0 then ['['] else [])
    ++ (List.range' s.windowFirst (s.windowLast + 1 - s.windowFirst)).map s.shownAt

/-- The column of the cursor in that text. -/
def caretColumn (s : Session) : Nat :=
  s.cursor - s.windowFirst + (if s.windowFirst = 0 then 1 else 0)

def window (s : Session) : String :=
  String.ofList s.windowText ++ "\n" ++ Text.spaces s.caretColumn ++ "^"

end Session

end Packrat
