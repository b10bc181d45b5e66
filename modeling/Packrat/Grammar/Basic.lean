import Packrat.Grammar.Pattern

/-!
# Grammars

A grammar is its list of nodes. Names are found by search: the builder makes sure that no two rules
share a name.
-/

namespace Packrat

structure Grammar where
  nodes : Array Node

namespace Grammar

def size (g : Grammar) : Nat := g.nodes.size

def node? (g : Grammar) (id : NodeId) : Option Node := g.nodes[id]?

def contains (g : Grammar) (id : NodeId) : Bool := id < g.size

def ids (g : Grammar) : List NodeId := List.range g.size

def isRule (g : Grammar) (id : NodeId) : Bool :=
  (g.node? id).any (fun node => node.kind == .rule)

def rules (g : Grammar) : List NodeId := g.ids.filter g.isRule

def rule? (g : Grammar) (name : String) : Option NodeId :=
  g.ids.find? (fun id => (g.node? id).any (fun node => node.kind == .rule && node.name? == some name))

/-- The label of a node, or the written id where there is no such node. -/
def label (g : Grammar) (id : NodeId) : String :=
  match g.node? id with
  | some node => node.label
  | none => NodeId.text id

theorem contains_iff {g : Grammar} {id : NodeId} : g.contains id = true ↔ id < g.size := by
  simp [contains]

theorem node?_eq_none_iff {g : Grammar} {id : NodeId} : g.node? id = none ↔ g.size ≤ id := by
  simp [node?, size]

@[simp] theorem mem_ids {g : Grammar} {id : NodeId} : id ∈ g.ids ↔ id < g.size := by
  simp [ids]

end Grammar

end Packrat
