import Packrat.Event
import Packrat.Memo

/-!
# Sessions

The state of matching one input: the cursor, the memo table, and what is noted down for the reader.
The notes never decide anything: they are kept in a structure of their own, which is only ever
written by the matcher, and read back in one place, where a lookahead withdraws the failures that
were noted inside it.
-/

namespace Packrat

structure Options where
  recordHistory : Bool := false
  /-- The number of characters shown on each side of the cursor. -/
  printRange : Nat := 10
  trackFurthestFailure : Bool := true
deriving DecidableEq, Repr

/-- Why a match cannot be carried out at all. -/
inductive MatchError where
  | cursorPastEnd (position length : Nat)
  | positionOutOfBounds (position length : Nat)
  | unknownNode (id : NodeId)
  | unknownRule (name : String)
deriving DecidableEq, Repr

namespace MatchError

def message : MatchError → String
  | .cursorPastEnd position length =>
    "cursor read past end of input at position " ++ toString position ++ " (input length "
      ++ toString length ++ ")"
  | .positionOutOfBounds position length =>
    "cursor position " ++ toString position ++ " is outside the input (length " ++ toString length
      ++ ")"
  | .unknownNode id => "node " ++ NodeId.text id ++ " does not belong to the grammar being matched"
  | .unknownRule name => "grammar has no rule named '" ++ name ++ "'"

def position? : MatchError → Option Nat
  | .cursorPastEnd position _ | .positionOutOfBounds position _ => some position
  | .unknownNode _ | .unknownRule _ => none

end MatchError

structure Diagnostics where
  /-- The events so far, if they are kept. -/
  history? : Option History
  tracksFailures : Bool
  /-- The furthest position at which a literal or a character class failed. -/
  furthestFailure? : Option Nat := none

namespace Diagnostics

def forOptions (options : Options) : Diagnostics where
  history? := if options.recordHistory then some #[] else none
  tracksFailures := options.trackFurthestFailure

def record (d : Diagnostics) (e : Event) : Diagnostics :=
  { d with history? := d.history?.map (·.push e) }

def noteFailure (d : Diagnostics) (position : Nat) : Diagnostics :=
  if d.tracksFailures then
    { d with furthestFailure? := some (match d.furthestFailure? with
      | some furthest => max furthest position
      | none => position) }
  else d

end Diagnostics

structure Session where
  input : Array Char
  cursor : Nat := 0
  memo : MemoTable
  printRange : Nat
  diagnostics : Diagnostics

namespace Session

def start (input : String) (options : Options) : Session where
  input := input.toList.toArray
  memo := MemoTable.forLength input.length
  printRange := options.printRange
  diagnostics := Diagnostics.forOptions options

def length (s : Session) : Nat := s.input.size

def atEnd (s : Session) : Bool := s.length ≤ s.cursor

def peek? (s : Session) : Option Char := s.input[s.cursor]?

/-- The characters from `start` to `stop`, as far as the input has them. -/
def slice (s : Session) (start stop : Nat) : String :=
  String.ofList (s.input.extract start stop).toList

/-- The number of leading characters in which `expected` agrees with the input from `position` on. -/
def agreement (s : Session) (position : Nat) : List Char → Nat
  | [] => 0
  | c :: rest => if s.input[position]? = some c then s.agreement (position + 1) rest + 1 else 0

def commonLength (s : Session) (text : String) : Nat := s.agreement s.cursor text.toList

def startsWith (s : Session) (text : String) : Bool := s.commonLength text == text.length

/-- The session with the cursor at another position of the input or at its end. -/
def moveTo (s : Session) (position : Nat) : Except MatchError Session :=
  if position ≤ s.length then .ok { s with cursor := position }
  else .error (.positionOutOfBounds position s.length)

def current (s : Session) : Except MatchError Char :=
  match s.peek? with
  | some c => .ok c
  | none => .error (.cursorPastEnd s.cursor s.length)

def next (s : Session) : Except MatchError (Char × Session) :=
  s.current.map fun c => (c, { s with cursor := s.cursor + 1 })

def remember (s : Session) (position : Nat) (id : NodeId) (m : Match) : Session :=
  { s with memo := s.memo.insert position id m }

def forget (s : Session) (id : NodeId) : Session :=
  { s with memo := s.memo.erase s.cursor id }

def remembered? (s : Session) (id : NodeId) : Option Match := s.memo.get? s.cursor id

/-- Notes an event, with the text of its span. -/
def emit (s : Session) (kind : EventKind) (label : String) (start stop : Nat) : Session :=
  match s.diagnostics.history? with
  | none => s
  | some _ => { s with diagnostics := s.diagnostics.record ⟨kind, label, start, stop, s.slice start stop⟩ }

def noteFailure (s : Session) (position : Nat) : Session :=
  { s with diagnostics := s.diagnostics.noteFailure position }

def furthestFailure? (s : Session) : Option Nat := s.diagnostics.furthestFailure?

/-- Puts the furthest failure back to an earlier value. -/
def restoreFailure (s : Session) (furthest : Option Nat) : Session :=
  { s with diagnostics := { s.diagnostics with furthestFailure? := furthest } }

def history? (s : Session) : Option History := s.diagnostics.history?

def stopRecording (s : Session) : Session :=
  { s with diagnostics := { s.diagnostics with history? := none } }

/-! Notes leave the input, the cursor and the memo table alone. -/

@[simp] theorem input_emit (s : Session) (kind : EventKind) (label : String) (start stop : Nat) :
    (s.emit kind label start stop).input = s.input := by
  unfold emit
  split <;> rfl

@[simp] theorem cursor_emit (s : Session) (kind : EventKind) (label : String) (start stop : Nat) :
    (s.emit kind label start stop).cursor = s.cursor := by
  unfold emit
  split <;> rfl

@[simp] theorem memo_emit (s : Session) (kind : EventKind) (label : String) (start stop : Nat) :
    (s.emit kind label start stop).memo = s.memo := by
  unfold emit
  split <;> rfl

@[simp] theorem furthestFailure?_emit (s : Session) (kind : EventKind) (label : String)
    (start stop : Nat) : (s.emit kind label start stop).furthestFailure? = s.furthestFailure? := by
  unfold emit
  split <;> rfl

@[simp] theorem input_noteFailure (s : Session) (position : Nat) :
    (s.noteFailure position).input = s.input := rfl

@[simp] theorem cursor_noteFailure (s : Session) (position : Nat) :
    (s.noteFailure position).cursor = s.cursor := rfl

@[simp] theorem memo_noteFailure (s : Session) (position : Nat) :
    (s.noteFailure position).memo = s.memo := rfl

theorem moveTo_of_le {s : Session} {position : Nat} (h : position ≤ s.length) :
    s.moveTo position = .ok { s with cursor := position } := if_pos h

end Session

end Packrat
