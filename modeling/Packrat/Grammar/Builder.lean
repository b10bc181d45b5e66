import Packrat.Grammar.Basic

/-!
# Building grammars

A builder collects nodes one by one; each gets the next free id. A rule that refers to itself is first
reserved under its name and given its body later. Ids are not looked at until the end, so that a node
may refer to one that does not exist yet; `build` accepts the nodes only if every rule has a body,
every reference leads to a node, and no repetition asks for more than it allows.

A step may fail. It gives the builder as it is afterwards in either case, so that building can go on
after an error.
-/

namespace Packrat

/-- Why nodes cannot be added, or do not make a grammar. -/
inductive BuildError where
  | unknownNode (id : NodeId)
  | notARule (id : NodeId)
  | emptyRuleName
  | duplicateRule (name : String)
  | ruleAlreadyDefined (name : String)
  | undefinedRule (name : String)
  | invalidRepetitionBounds (min max : Nat)
deriving DecidableEq, Repr

namespace BuildError

def message : BuildError → String
  | .unknownNode id => "node " ++ NodeId.text id ++ " does not belong to this grammar"
  | .notARule id => "node " ++ NodeId.text id ++ " is not a rule"
  | .emptyRuleName => "rule name must not be empty"
  | .duplicateRule name => "rule '" ++ name ++ "' is already declared"
  | .ruleAlreadyDefined name => "rule '" ++ name ++ "' already has a body"
  | .undefinedRule name => "rule '" ++ name ++ "' was reserved but never given a body"
  | .invalidRepetitionBounds min max =>
    "invalid repetition bounds: minimum " ++ toString min ++ " exceeds maximum " ++ toString max

end BuildError

/-- A place in the list of nodes: filled, or kept for a rule without a body. -/
inductive Slot where
  | defined (node : Node)
  | reserved (name : String) (isAlias : Bool)

structure Builder where
  slots : Array Slot := #[]
  /-- The names of the rules, reserved ones included, with their ids. -/
  names : List (String × NodeId) := []

namespace Builder

def push (b : Builder) (slot : Slot) : NodeId × Builder :=
  (b.slots.size, { b with slots := b.slots.push slot })

def add (b : Builder) (pattern : Pattern) : NodeId × Builder :=
  b.push (.defined { pattern := pattern })

/-- Keeps an id for a rule whose body comes later. -/
def reserve (b : Builder) (name : String) (isAlias : Bool) : Except BuildError NodeId × Builder :=
  if name.isEmpty then (.error .emptyRuleName, b)
  else if (b.names.lookup name).isSome then (.error (.duplicateRule name), b)
  else
    let (id, b) := b.push (.reserved name isAlias)
    (.ok id, { b with names := b.names ++ [(name, id)] })

def define (b : Builder) (rule body : NodeId) : Except BuildError Unit × Builder :=
  match b.slots[rule]? with
  | none => (.error (.unknownNode rule), b)
  | some (.reserved name isAlias) =>
    let node : Node := { pattern := .rule body, name? := some name, isAlias := isAlias }
    (.ok (), { b with slots := b.slots.setIfInBounds rule (.defined node) })
  | some (.defined node) =>
    match node.pattern, node.name? with
    | .rule _, some name => (.error (.ruleAlreadyDefined name), b)
    | _, _ => (.error (.notARule rule), b)

def declare (b : Builder) (name : String) (isAlias : Bool) (body : NodeId) :
    Except BuildError NodeId × Builder :=
  match b.reserve name isAlias with
  | (.error e, b) => (.error e, b)
  | (.ok id, b) =>
    match b.define id body with
    | (.error e, b) => (.error e, b)
    | (.ok _, b) => (.ok id, b)

/-- The first component that is no node of a grammar of the given size. -/
def firstMissing? (size : Nat) (pattern : Pattern) : Option NodeId :=
  pattern.components.find? (fun id => size ≤ id)

/-- What is wrong with a slot of a list of the given size; its node, if nothing is. -/
def checkSlot (size : Nat) : Slot → Except BuildError Node
  | .reserved name _ => .error (.undefinedRule name)
  | .defined node =>
    match firstMissing? size node.pattern with
    | some id => .error (.unknownNode id)
    | none =>
      match node.pattern with
      | .repetition _ min (some max) =>
        if max < min then .error (.invalidRepetitionBounds min max) else .ok node
      | _ => .ok node

/-- The nodes of the slots, up to the first slot with which something is wrong. -/
def checkSlots (size : Nat) : List Slot → Except BuildError (List Node)
  | [] => .ok []
  | slot :: rest => do
    let node ← checkSlot size slot
    let nodes ← checkSlots size rest
    return node :: nodes

def build (b : Builder) : Except BuildError Grammar :=
  (checkSlots b.slots.size b.slots.toList).map fun nodes => ⟨nodes.toArray⟩

inductive Call where
  | add (pattern : Pattern)
  | reserve (name : String) (isAlias : Bool)
  | define (rule body : NodeId)
  | declare (name : String) (isAlias : Bool) (body : NodeId)

/-- Carries out one step. It gives the id of the node that was added, if one was. -/
def apply (b : Builder) : Call → Except BuildError (Option NodeId) × Builder
  | .add pattern => ((.ok (some (b.add pattern).1)), (b.add pattern).2)
  | .reserve name isAlias =>
    let (answer, b) := b.reserve name isAlias
    (answer.map some, b)
  | .define rule body =>
    let (answer, b) := b.define rule body
    (answer.map fun _ => none, b)
  | .declare name isAlias body =>
    let (answer, b) := b.declare name isAlias body
    (answer.map some, b)

/-- The builder after a list of steps, whether they succeed or fail. -/
def after (b : Builder) (calls : List Call) : Builder :=
  calls.foldl (fun b call => (b.apply call).2) b

/-- Carries out the steps up to the first that fails, and gives the number of those before it along
with the error. -/
def applyAll (b : Builder) (step : Nat) : List Call → Except (BuildError × Nat) Builder
  | [] => .ok b
  | call :: rest =>
    match b.apply call with
    | (.ok _, b) => b.applyAll (step + 1) rest
    | (.error e, _) => .error (e, step)

end Builder

namespace Grammar

/-- The grammar that the steps make. An error comes with the number of steps before it; if the steps
are fine and their result is not, that is all of them. -/
def ofCalls (calls : List Builder.Call) : Except (BuildError × Nat) Grammar := do
  let b ← Builder.applyAll {} 0 calls
  b.build.mapError fun e => (e, calls.length)

end Grammar

end Packrat
