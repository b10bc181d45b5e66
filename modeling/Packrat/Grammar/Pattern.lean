import Packrat.CharClass

/-!
# Patterns and nodes

A grammar is a list of nodes that refer to each other by their places in that list. A node holds a
pattern and, if it is a rule, a name. A rule may be an alias: a name that is written in definitions
and left out of parse trees.
-/

namespace Packrat

/-- The place of a node in its grammar. -/
abbrev NodeId := Nat

namespace NodeId

/-- The written form, for instance `#7`. -/
def text (id : NodeId) : String := "#" ++ toString id

end NodeId

inductive Kind where
  | literal
  | charClass
  | sequence
  | choice
  | repetition
  | predicate
  | rule
deriving DecidableEq, Repr

namespace Kind

def name : Kind → String
  | .literal => "Literal"
  | .charClass => "CharClass"
  | .sequence => "Sequence"
  | .choice => "Choice"
  | .repetition => "Repetition"
  | .predicate => "Predicate"
  | .rule => "Rule"

def all : List Kind :=
  [.literal, .charClass, .sequence, .choice, .repetition, .predicate, .rule]

def ofName? (name : String) : Option Kind :=
  all.find? (fun kind => kind.name == name)

end Kind

inductive Pattern where
  /-- Exactly these characters. -/
  | literal (text : String)
  /-- One character of a class. -/
  | charClass (cls : CharClass)
  /-- All items, one after the other. -/
  | sequence (items : List NodeId)
  /-- The first alternative that matches. -/
  | choice (alternatives : List NodeId)
  /-- The body as often as it matches, at least `min` and at most `max?` times. -/
  | repetition (body : NodeId) (min : Nat) (max? : Option Nat)
  /-- Matches the empty text where the body's success is the expected one. -/
  | predicate (body : NodeId) (expected : Bool)
  /-- A named pattern. -/
  | rule (body : NodeId)
deriving BEq

namespace Pattern

def kind : Pattern → Kind
  | .literal _ => .literal
  | .charClass _ => .charClass
  | .sequence _ => .sequence
  | .choice _ => .choice
  | .repetition _ _ _ => .repetition
  | .predicate _ _ => .predicate
  | .rule _ => .rule

/-- The nodes that the pattern refers to, in the order in which they are tried. -/
def components : Pattern → List NodeId
  | .literal _ | .charClass _ => []
  | .sequence items => items
  | .choice alternatives => alternatives
  | .repetition body _ _ | .predicate body _ | .rule body => [body]

end Pattern

/-- What a parse tree keeps of the node that a part of it comes from. -/
structure Origin where
  name? : Option String
  isAlias : Bool
  kind : Kind
deriving DecidableEq, Repr

namespace Origin

/-- Hidden origins have no memo entries and no lines of their own in visible trees. -/
def hidden (o : Origin) : Bool := o.isAlias || o.name?.isNone

/-- The name, or the kind where there is no name. -/
def label (o : Origin) : String := o.name?.getD o.kind.name

end Origin

structure Node where
  pattern : Pattern
  name? : Option String := none
  isAlias : Bool := false
deriving BEq

namespace Node

def kind (node : Node) : Kind := node.pattern.kind

def origin (node : Node) : Origin := ⟨node.name?, node.isAlias, node.kind⟩

def hidden (node : Node) : Bool := node.origin.hidden

def label (node : Node) : String := node.origin.label

end Node

end Packrat
