import Packrat.Match.Basic
import Packrat.Text.Column

/-!
# Events

What happens while an input is matched, one event for each step: calls of nodes and their answers,
reads and writes of the memo table, and the growing of left-recursive rules.
-/

namespace Packrat

inductive EventKind where
  | attempt
  | accept
  | reject
  /-- A literal or a character class took its characters. -/
  | charAccept
  /-- A rule was looked up in the memo table. -/
  | memoCheck
  | memoSave (status : Status)
  /-- A match was taken from the memo table. -/
  | assumeResult (status : Status)
  /-- A rule was called at a position where it is still being evaluated. -/
  | identifyLeftRecursion
  | beginGrow
  | growAttempt (iteration : Nat)
  | growAccept (iteration : Nat)
  /-- The attempt matched, and no further than the last one. -/
  | growReject (iteration : Nat)
  | growFail (iteration : Nat)
  /-- Growing ended after the given number of accepted attempts. -/
  | growTerminate (iterations : Nat)
deriving DecidableEq, Repr

inductive EventCategory where
  | pattern
  | memo
  | control
deriving DecidableEq, Repr

namespace EventCategory

def name : EventCategory → String
  | .pattern => "Pattern"
  | .memo => "Memo"
  | .control => "Control"

end EventCategory

namespace EventKind

def category : EventKind → EventCategory
  | .attempt | .accept | .reject | .charAccept => .pattern
  | .memoCheck | .memoSave _ | .assumeResult _ => .memo
  | .identifyLeftRecursion | .beginGrow | .growAttempt _ | .growAccept _ | .growReject _
  | .growFail _ | .growTerminate _ => .control

def displayName : EventKind → String
  | .attempt => "Pattern Attempt"
  | .accept => "Pattern Accept"
  | .reject => "Pattern Reject"
  | .charAccept => "Character Accept"
  | .memoCheck => "Memory Check"
  | .memoSave _ => "Memory Save"
  | .assumeResult _ => "Assume Result"
  | .identifyLeftRecursion => "Identify Left Recursion"
  | .beginGrow => "Begin Grow"
  | .growAttempt _ => "Growing Attempt"
  | .growAccept _ => "Growing Accept"
  | .growReject _ => "Growing Reject"
  | .growFail _ => "Growing Fail"
  | .growTerminate _ => "Growing Terminate"

/-- What is written after the last colon, for the kinds that have something to add. -/
def detail? : EventKind → Option String
  | .memoSave status | .assumeResult status => some status.text
  | .growAttempt iteration | .growAccept iteration | .growReject iteration | .growFail iteration =>
    some ("iteration " ++ toString iteration)
  | .growTerminate iterations => some (toString iterations ++ " valid iterations")
  | .attempt | .accept | .reject | .charAccept | .memoCheck | .identifyLeftRecursion | .beginGrow =>
    none

def isGrowAccept : EventKind → Bool
  | .growAccept _ => true
  | _ => false

end EventKind

structure Event where
  kind : EventKind
  /-- The label of the node. -/
  label : String
  start : Nat
  stop : Nat
  /-- The characters of the input from `start` to `stop`. -/
  text : String
deriving DecidableEq, Repr

namespace Event

def category (e : Event) : EventCategory := e.kind.category

/-- The event on one line: the name in 25 columns, the label in 12, the span, then the text and the
detail if there are any. -/
def display (e : Event) : String :=
  Text.alignLeft 25 e.kind.displayName ++ Text.alignLeft 12 e.label
    ++ " at " ++ toString e.start ++ ".." ++ toString e.stop
    ++ (if e.text.isEmpty then "" else ", " ++ Text.quoted e.text)
    ++ (match e.kind.detail? with
      | some detail => ": " ++ detail
      | none => "")

end Event

abbrev History := Array Event

namespace History

def countIn (h : History) (category : EventCategory) : Nat :=
  h.countP (fun e => e.category == category)

def growAccepts (h : History) : Nat := h.countP (fun e => e.kind.isGrowAccept)

/-- One numbered line for each event. -/
def render (h : History) : String :=
  String.join (h.toList.zipIdx.map fun (e, index) =>
    Text.alignRight 4 (toString index) ++ ":\t" ++ e.display ++ "\n")

end History

end Packrat
