import Packrat.Grammar.Basic
import Packrat.Matcher.Run

/-!
# The patterns

How each form of pattern is matched, given a way to call its components. Nothing here knows of the
memo table or of left recursion: that is the business of the one who is called.

A failure leaves the cursor where the pattern began. The only loop is the one of a repetition; each
of its rounds but the last takes at least one character, so it is given one round for each remaining
character and one more.
-/

namespace Packrat

namespace Pattern

/-- Exactly the characters of `text`. A failure is noted where the first difference is. -/
def matchLiteral (label : String) (text : String) (s : Session) : Answer :=
  let start := s.cursor
  let agreed := s.commonLength text
  if agreed < text.length then
    .done (.fail start, s.noteFailure (start + agreed))
  else do
    let s ← s.moveToR (start + text.length)
    return (.leaf start text, s.emit .charAccept label start (start + text.length))

def matchClass (label : String) (cls : CharClass) (s : Session) : Answer :=
  let start := s.cursor
  match s.peek? with
  | none => .done (.fail start, s.noteFailure start)
  | some c =>
    if cls.accepts c then do
      let s ← s.moveToR (start + 1)
      return (.leaf start (String.singleton c), s.emit .charAccept label start (start + 1))
    else .done (.fail start, s.noteFailure start)

/-- The items that are left of a sequence that began at `start`; `acc` holds those before them. -/
def matchItems (call : Evaluator) (start : Nat) : List NodeId → Match → Session → Answer
  | [], acc, s => .done (acc, s)
  | item :: rest, acc, s => do
    let (child, s) ← call item s
    if child.success then matchItems call start rest (acc.push child) s
    else
      let s ← s.moveToR start
      return (.fail start, s)

def matchAlternatives (call : Evaluator) (start : Nat) : List NodeId → Session → Answer
  | [], s => .done (.fail start, s)
  | alternative :: rest, s => do
    let (child, s) ← call alternative s
    if child.success then return ((Match.empty start).push child, s)
    else
      let s ← s.moveToR start
      matchAlternatives call start rest s

def mayRepeat (max? : Option Nat) (count : Nat) : Bool :=
  match max? with
  | none => true
  | some max => count < max

/-- The rounds that are left of a repetition, `count` of which are in `acc`: gives their number, the
match of all of them, and the session after the last. A round that matches the empty text would
match it forever; it ends the loop and satisfies any minimum. -/
def matchRounds (call : Evaluator) (body : NodeId) (min : Nat) (max? : Option Nat) :
    (rounds : Nat) → (count : Nat) → Match → Session → Run (Nat × Match × Session)
  | 0, _, _, _ => .exhausted
  | rounds + 1, count, acc, s =>
    if mayRepeat max? count then do
      let before := s.cursor
      let (child, s) ← call body s
      if !child.success then
        let s ← s.moveToR before
        return (count, acc, s)
      else if before < child.stop then
        matchRounds call body min max? rounds (count + 1) (acc.push child) s
      else return (max (count + 1) min, acc.push child, s)
    else .done (count, acc, s)

def matchRepetition (call : Evaluator) (body : NodeId) (min : Nat) (max? : Option Nat)
    (s : Session) : Answer := do
  let start := s.cursor
  let (count, m, s) ← matchRounds call body min max? (s.length - start + 1) 0 (.empty start) s
  if count < min then
    let s ← s.moveToR start
    return (.fail start, s)
  else return (m, s)

/-- The empty text where the body's success is the expected one. What fails inside a lookahead is
not counted among the failures of the input. -/
def matchPredicate (call : Evaluator) (body : NodeId) (expected : Bool) (s : Session) : Answer := do
  let start := s.cursor
  let furthest := s.furthestFailure?
  let (child, s) ← call body s
  let s ← s.moveToR start
  let s := s.restoreFailure furthest
  return (if child.success == expected then .empty start else .fail start, s)

/-- The body of a rule. A body that is shown in trees becomes the only child; the match of any other
body is the match of the rule. -/
def matchRule (call : Evaluator) (body : NodeId) (s : Session) : Answer := do
  let (child, s) ← call body s
  if child.success && !child.hidden then return ((Match.empty child.start).push child, s)
  else return (child, s)

def eval (call : Evaluator) (label : String) (s : Session) : Pattern → Answer
  | .literal text => matchLiteral label text s
  | .charClass cls => matchClass label cls s
  | .sequence items => matchItems call s.cursor items (.empty s.cursor) s
  | .choice alternatives => matchAlternatives call s.cursor alternatives s
  | .repetition body min max? => matchRepetition call body min max? s
  | .predicate body expected => matchPredicate call body expected s
  | .rule body => matchRule call body s

end Pattern

/-- Matches the pattern of a node, without regard to the memo table, and records the node in the
match. -/
def Node.eval (call : Evaluator) (node : Node) (s : Session) : Answer := do
  let start := s.cursor
  let s := s.emit .attempt node.label start start
  let (m, s) ← node.pattern.eval call node.label s
  let m := m.stamp node.origin
  let s := if m.success then s.emit .accept node.label m.start m.stop
    else s.emit .reject node.label start start
  return (m, s)

end Packrat
