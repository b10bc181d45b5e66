import Packrat.Grammar.Nullable

/-!
# Leftmost components and left recursion

The leftmost components of a node are those that may be called before the node has taken any
character. A node is left-recursive if it can reach itself from leftmost component to leftmost
component, and directly so if it can do that without passing another visible rule. Only direct left
recursion makes a match grow.
-/

namespace Packrat

namespace Grammar

/-- The items of a sequence up to the first that is not nullable, that one included. -/
def leadingItems (g : Grammar) : List NodeId → List NodeId
  | [] => []
  | item :: rest => if g.isNullable item then item :: g.leadingItems rest else [item]

/-- The components that may be called before the node has taken any character. -/
def leftmost (g : Grammar) (id : NodeId) : List NodeId :=
  match g.node? id with
  | none => []
  | some node =>
    match node.pattern with
    | .sequence items => g.leadingItems items
    | pattern => pattern.components

/-- Whether a search that stops at visible rules goes no further than this node. -/
def isVisible (g : Grammar) (id : NodeId) : Bool :=
  (g.node? id).any (fun node => !node.hidden)

/-- Whether `target` is found by following leftmost components from the nodes in `work`. Nodes in
`seen` are not followed again, nor, if `direct` is set, are visible rules. `none` if more than `steps`
nodes had to be taken from `work`. -/
def finds? (g : Grammar) (direct : Bool) (target : NodeId) :
    (steps : Nat) → (seen work : List NodeId) → Option Bool
  | _, _, [] => some false
  | 0, _, _ :: _ => none
  | steps + 1, seen, id :: rest =>
    if id = target then some true
    else if seen.contains id then g.finds? direct target steps seen rest
    else if direct && g.isVisible id then g.finds? direct target steps (id :: seen) rest
    else g.finds? direct target steps (id :: seen) (g.leftmost id ++ rest)

def referenceCount (g : Grammar) : Nat :=
  g.nodes.foldl (fun count node => count + node.pattern.components.length) 0

/-- Whether a node reaches itself. Each reference is put into the work at most once, and those of the
node itself once more. -/
def reachesItself (g : Grammar) (direct : Bool) (id : NodeId) : Bool :=
  let work := g.leftmost id
  g.finds? direct id (work.length + g.referenceCount) [] work == some true

/-- Whether a node can reach itself through leftmost components. -/
def isLeftRecursive (g : Grammar) (id : NodeId) : Bool := g.reachesItself false id

/-- Whether a node can reach itself through leftmost components without passing another visible
rule. -/
def isDirectlyLeftRecursive (g : Grammar) (id : NodeId) : Bool := g.reachesItself true id

end Grammar

structure Metrics where
  nodeCount : Nat
  ruleCount : Nat
  /-- The number of nullable rules. -/
  nullableCount : Nat
  /-- The number of left-recursive rules. -/
  leftRecursiveCount : Nat
  /-- The rules whose left recursion passes through other rules and is not grown. -/
  indirectlyLeftRecursive : List NodeId
deriving DecidableEq, Repr

namespace Grammar

def metrics (g : Grammar) : Metrics where
  nodeCount := g.size
  ruleCount := g.rules.length
  nullableCount := g.rules.countP g.isNullable
  leftRecursiveCount := g.rules.countP g.isLeftRecursive
  indirectlyLeftRecursive :=
    g.rules.filter fun id => g.isLeftRecursive id && !g.isDirectlyLeftRecursive id

end Grammar

end Packrat
