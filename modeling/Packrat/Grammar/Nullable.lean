import Packrat.Grammar.Basic

/-!
# Nullable nodes

Whether a node can match the empty text, found without any input. A search follows the components of
a node. When it meets a node that it is already inside of, it leaves the question open there: an open
answer neither keeps a sequence from being nullable nor makes a choice nullable. Every node on the
way is a new one, so that the search goes no deeper than the grammar is large.
-/

namespace Packrat

inductive Verdict where
  | nullable
  | consuming
  /-- The answer hangs on a node that the search is still inside of. -/
  | unsettled
deriving DecidableEq, Repr

namespace Verdict

/-- A sequence is nullable if no item takes a character and some item is known to be nullable;
`settled` tells whether there was one. -/
def ofSequence (search : NodeId → Option Verdict) : (settled : Bool) → List NodeId → Option Verdict
  | settled, [] => some (if settled then .nullable else .unsettled)
  | settled, item :: rest =>
    match search item with
    | none => none
    | some .consuming => some .consuming
    | some .nullable => ofSequence search true rest
    | some .unsettled => ofSequence search settled rest

/-- A choice is nullable if some alternative is; `found` is the verdict on those before. -/
def ofChoice (search : NodeId → Option Verdict) : (found : Verdict) → List NodeId → Option Verdict
  | found, [] => some found
  | found, alternative :: rest =>
    match search alternative with
    | none => none
    | some .nullable => some .nullable
    | some .consuming => ofChoice search .consuming rest
    | some .unsettled => ofChoice search found rest

def ofPattern (search : NodeId → Option Verdict) : Pattern → Option Verdict
  | .literal text => some (if text.isEmpty then .nullable else .consuming)
  | .charClass _ => some .consuming
  | .sequence items => ofSequence search items.isEmpty items
  | .choice alternatives => ofChoice search .unsettled alternatives
  | .repetition body min _ => if min = 0 then some .nullable else search body
  | .predicate _ _ => some .nullable
  | .rule body => search body

end Verdict

namespace Grammar

/-- The search from a node, inside of the nodes in `path`, and at most `depth` nodes deep; `none` if
that was not deep enough. -/
def verdict? (g : Grammar) : (depth : Nat) → (path : List NodeId) → NodeId → Option Verdict
  | 0, _, _ => none
  | depth + 1, path, id =>
    match g.node? id with
    | none => some .unsettled
    | some node =>
      if path.contains id then some .unsettled
      else Verdict.ofPattern (g.verdict? depth (id :: path)) node.pattern

def isNullable (g : Grammar) (id : NodeId) : Bool :=
  g.verdict? (g.size + 1) [] id == some .nullable

end Grammar

end Packrat
