import Packrat.Grammar.Basic

/-!
# Reference grammars

Three small grammars that can be asked for by name. All of them begin with the numbers; the other two
are sums of numbers, once with the recursion on the left of the sign only, and once on both sides.
-/

namespace Packrat

structure ReferenceGrammar where
  grammar : Grammar
  /-- The rule from which a match starts. -/
  start : NodeId
  /-- The rule of numbers. -/
  number : NodeId

inductive Reference where
  /-- `Number <- [0-9]+` -/
  | number
  /-- `Expression <- Expression "+" Number / Number` -/
  | expression
  /-- `Expression <- Expression "+" Expression / Number` -/
  | rightExpression
deriving DecidableEq, Repr

namespace Reference

def name : Reference → String
  | .number => "number"
  | .expression => "expression"
  | .rightExpression => "right-expression"

def all : List Reference := [.number, .expression, .rightExpression]

def ofName? (name : String) : Option Reference :=
  all.find? (fun reference => reference.name == name)

/-- The nodes of the numbers: a digit, digits, and the rule. -/
def numberNodes : List Node :=
  [{ pattern := .charClass .digit },
    { pattern := .repetition 0 1 none },
    { pattern := .rule 1, name? := some "Number" }]

/-- The nodes of sums with the given operand on the right of the sign. -/
def sumNodes (right : NodeId) : List Node :=
  numberNodes ++
    [{ pattern := .rule 6, name? := some "Expression" },
      { pattern := .literal "+" },
      { pattern := .sequence [3, 4, right] },
      { pattern := .choice [5, 2] }]

def build : Reference → ReferenceGrammar
  | .number => ⟨⟨numberNodes.toArray⟩, 2, 2⟩
  | .expression => ⟨⟨(sumNodes 2).toArray⟩, 3, 2⟩
  | .rightExpression => ⟨⟨(sumNodes 3).toArray⟩, 3, 2⟩

end Reference

end Packrat
