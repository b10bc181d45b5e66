import Packrat.Matcher.Call

/-!
# Parsing an input

A parse matches one node at the beginning of an input, in a session of its own. It need not take the
whole input; whether it did is part of the outcome.
-/

namespace Packrat

structure Outcome where
  result : Match
  /-- The cursor after the match. -/
  position : Nat
  inputLength : Nat
  furthestFailure? : Option Nat
  history? : Option History
  /-- The number of matches in the memo table. -/
  memoEntries : Nat
deriving DecidableEq

namespace Outcome

def success (o : Outcome) : Bool := o.result.success

/-- Whether the match took the whole input. -/
def complete (o : Outcome) : Bool := o.result.success && o.position == o.inputLength

def ofSession (result : Match) (s : Session) : Outcome where
  result := result
  position := s.cursor
  inputLength := s.length
  furthestFailure? := s.furthestFailure?
  history? := s.history?
  memoEntries := s.memo.total

end Outcome

namespace Grammar

def parse (g : Grammar) (options : Options) (start : NodeId) (input : String) : Run Outcome := do
  let (m, s) ← g.matchAt start (Session.start input options)
  return .ofSession m s

/-- Where a parse may start: at a node, or at a rule that is given by its name. -/
inductive Start where
  | node (id : NodeId)
  | rule (name : String)
deriving DecidableEq, Repr

namespace Start

def resolve (g : Grammar) : Start → Except MatchError NodeId
  | .node id => .ok id
  | .rule name =>
    match g.rule? name with
    | some id => .ok id
    | none => .error (.unknownRule name)

end Start

def parseFrom (g : Grammar) (options : Options) (start : Start) (input : String) : Run Outcome :=
  match start.resolve g with
  | .ok id => g.parse options id input
  | .error e => .fault e (Session.start input options)

end Grammar

end Packrat
