import Packrat.Grammar.Basic

/-!
# Definitions

A node is written out in the usual notation of parsing expressions. Rules inside it are written by
name, so that a recursive rule has a finite definition. The writing is in two steps: the node is first
expanded into an expression, a tree whose leaves are literals, classes and names, and the expression is
then written.
-/

namespace Packrat

inductive Expr where
  | literal (text : String)
  | charClass (cls : CharClass)
  /-- A rule, by its name. -/
  | rule (name : String)
  /-- A reference that leads nowhere. -/
  | missing (id : NodeId)
  | sequence (items : List Expr)
  | choice (alternatives : List Expr)
  | repetition (body : Expr) (min : Nat) (max? : Option Nat)
  | predicate (body : Expr) (expected : Bool)

namespace Expr

/-- What follows the body of a repetition. -/
def suffix (min : Nat) (max? : Option Nat) : String :=
  match min, max? with
  | 0, some 1 => "?"
  | 0, none => "*"
  | 1, none => "+"
  | min, none => Text.braced (toString min ++ ",")
  | min, some max =>
    if min = max then Text.braced (toString min)
    else if min = 0 then Text.braced ("," ++ toString max)
    else Text.braced (toString min ++ "," ++ toString max)

/-- Whether the operand of a lookahead needs brackets: it does if it has several parts. -/
def needsBrackets : Expr → Bool
  | .sequence items => 1 < items.length
  | .choice alternatives => 1 < alternatives.length
  | _ => false

def bracketed (text : String) : String := "(" ++ text ++ ")"

mutual

/-- The expression as text. The alternatives of a choice and the body of a repetition always stand in
brackets. -/
def render : Expr → String
  | .literal text => "\"" ++ Text.asciiEscaped text ++ "\""
  | .charClass cls => cls.definition
  | .rule name => name
  | .missing id => "<" ++ NodeId.text id ++ ">"
  | .sequence items => " ".intercalate (renderAll items)
  | .choice alternatives => " / ".intercalate ((renderAll alternatives).map bracketed)
  | .repetition body min max? => bracketed body.render ++ suffix min max?
  | .predicate body expected =>
    (if expected then "&" else "!")
      ++ (if body.needsBrackets then bracketed body.render else body.render)

def renderAll : List Expr → List String
  | [] => []
  | e :: rest => e.render :: renderAll rest

end

end Expr

namespace Grammar

/-- A component of an expression: its name if it has one, else its own expression. -/
def component? (g : Grammar) (expand : NodeId → Option Expr) (id : NodeId) : Option Expr :=
  match (g.node? id).bind Node.name? with
  | some name => some (.rule name)
  | none => expand id

def components? (g : Grammar) (expand : NodeId → Option Expr) : List NodeId → Option (List Expr)
  | [] => some []
  | id :: rest =>
    match g.component? expand id, g.components? expand rest with
    | some e, some es => some (e :: es)
    | _, _ => none

def spell? (g : Grammar) (expand : NodeId → Option Expr) : Pattern → Option Expr
  | .literal text => some (.literal text)
  | .charClass cls => some (.charClass cls)
  | .sequence items => (g.components? expand items).map .sequence
  | .choice alternatives => (g.components? expand alternatives).map .choice
  | .repetition body min max? => (g.component? expand body).map fun e => .repetition e min max?
  | .predicate body expected => (g.component? expand body).map fun e => .predicate e expected
  | .rule body => g.component? expand body

/-- The expression of a node, expanded at most `depth` nodes deep; `none` if that is not deep
enough. -/
def expand? (g : Grammar) : (depth : Nat) → NodeId → Option Expr
  | 0, _ => none
  | depth + 1, id =>
    match g.node? id with
    | none => some (.missing id)
    | some node => g.spell? (g.expand? depth) node.pattern

/-- The expression of a node. It has none if the node is a component of itself without a named node
between; otherwise all nodes on the way are different ones. -/
def expression? (g : Grammar) (id : NodeId) : Option Expr := g.expand? (g.size + 1) id

/-- The definition of a node; three dots stand for an expression without end. -/
def definition (g : Grammar) (id : NodeId) : String :=
  match g.expression? id with
  | some e => e.render
  | none => "..."

def describe (g : Grammar) (id : NodeId) : String :=
  if g.isRule id then g.label id ++ " <- " ++ g.definition id else g.definition id

end Grammar

end Packrat
