import Packrat.Matcher.Pattern

/-!
# Calls

Every node is called through `Grammar.answer`. A hidden node is matched on the spot. A visible rule
goes through the memo table, where a rule that is called at a position for the first time leaves a
failing placeholder before its body is tried. If the body calls the rule again at the same position,
that call finds the placeholder, marks it and fails; so the body can only match by some other
alternative. Such a first match of a marked rule is a seed. It is put into the table and the body is
tried again, and now the inner call finds the seed; as long as the match becomes longer, it takes the
place of the one before.

Each accepted attempt ends further than the last one, so that the loop is given one round for each
character after the seed and one more.
-/

namespace Packrat

namespace Session

def save (s : Session) (position : Nat) (id : NodeId) (label : String) (m : Match) : Session :=
  (s.remember position id m).emit (.memoSave m.status) label m.start m.stop

end Session

namespace Node

/-- The answer to a call of a rule that found `memo` in the table. A placeholder means that the rule
is still being evaluated at this position: it is marked as left-recursive. -/
def answerFromMemo (node : Node) (id : NodeId) (memo : Match) (s : Session) : Answer := do
  let position := s.cursor
  let s ← if memo.success then s.moveToR memo.stop else .done s
  if memo.status = .possible then
    let memo := memo.withStatus .detected
    let s := s.remember position id memo
    return (memo, s.emit .identifyLeftRecursion node.label position position)
  else return (memo, s.emit (.assumeResult memo.status) node.label memo.start memo.stop)

/-- The attempts to grow that are left, after `iteration - 1` accepted ones, the last of which gave
`committed`: gives the number of accepted attempts, the longest match, and the session after the last
attempt. -/
def growRounds (call : Evaluator) (node : Node) (id : NodeId) (initial : Nat) :
    (rounds : Nat) → (iteration : Nat) → (committed : Match) → Session →
      Run (Nat × Match × Session)
  | 0, _, _, _ => .exhausted
  | rounds + 1, iteration, committed, s => do
    let s := s.emit (.growAttempt iteration) node.label initial committed.stop
    let s ← s.moveToR initial
    let (attempt, s) ← node.eval call s
    let attempt := attempt.withStatus .detected
    if !attempt.success then
      return (iteration - 1, committed, s.emit (.growFail iteration) node.label initial initial)
    else if attempt.stop ≤ committed.stop then
      return (iteration - 1, committed,
        s.emit (.growReject iteration) node.label initial attempt.stop)
    else
      let s := s.emit (.growAccept iteration) node.label initial attempt.stop
      let s := s.save initial id node.label attempt
      growRounds call node id initial rounds (iteration + 1) attempt s

/-- Grows a seed from `initial` until an attempt gives nothing longer. -/
def grow (call : Evaluator) (node : Node) (id : NodeId) (initial : Nat) (seed : Match)
    (s : Session) : Answer := do
  let (iterations, committed, s) ←
    growRounds call node id initial (s.length - seed.stop + 1) 1 seed s
  let s := s.emit (.growTerminate iterations) node.label initial committed.stop
  let s ← s.moveToR committed.stop
  return (committed, s)

def answerFirst (call : Evaluator) (node : Node) (id : NodeId) (s : Session) : Answer := do
  let position := s.cursor
  let s := s.remember position id (.placeholder position)
  let (m, s) ← node.eval call s
  let mark := ((s.memo.get? position id).map Match.status).getD .possible
  if mark = .detected && m.success then
    let m := m.withStatus .detected
    let s := s.save position id node.label m
    let s := s.emit .beginGrow node.label m.start m.stop
    node.grow call id position m s
  else
    let m := m.withStatus .impossible
    return (m, s.save position id node.label m)

end Node

namespace Grammar

/-- The answer to one call of a node at the cursor; `call` answers the calls inside it. -/
def answer (g : Grammar) (call : Evaluator) : Evaluator := fun id s =>
  match g.node? id with
  | none => .fault (.unknownNode id) s
  | some node =>
    if node.hidden then node.eval call s
    else
      let s := s.emit .memoCheck node.label s.cursor s.cursor
      match s.remembered? id with
      | some memo => node.answerFromMemo id memo s
      | none => node.answerFirst call id s

/-- Answers calls that are nested at most `depth` deep. -/
def run (g : Grammar) : (depth : Nat) → Evaluator
  | 0 => fun _ _ => .exhausted
  | depth + 1 => g.answer (g.run depth)

/-- A depth that is enough for every grammar in which no cycle of hidden nodes can be gone round
without taking a character. At one position a visible rule is being evaluated at most once, and
between two of them there is at most one call of each hidden node. -/
def depthBound (g : Grammar) (length : Nat) : Nat := (length + 1) * (g.size + 2) * (g.size + 2)

def matchAt (g : Grammar) (id : NodeId) (s : Session) : Answer :=
  if g.contains id then g.run (g.depthBound s.length) id s else .fault (.unknownNode id) s

end Grammar

end Packrat
