import Packrat.Grammar.Definition
import Packrat.Grammar.Leftmost
import Packrat.Grammar.Reference
import Packrat.Match.Tree
import Packrat.Matcher.Parse
import Packrat.Session.Window

/-!
# Reports

What the command line prints about an outcome or a grammar.
-/

namespace Packrat

inductive ReportFormat where
  | text
  | json
deriving DecidableEq, Repr

namespace ReportFormat

/-- Reads the name of a format. Only letters of ASCII are folded to lower case: no other character has
one of the letters of these names as its lower case. -/
def ofName? (name : String) : Option ReportFormat :=
  let lower := name.map Char.toLower
  if lower == "text" || lower == "tree" then some .text
  else if lower == "json" then some .json
  else none

def unknownMessage (name : String) : String :=
  "Unknown format: " ++ name ++ ". Supported: text, json"

end ReportFormat

namespace Outcome

/-- Where matching stopped: at the cursor, or at a failure beyond it. -/
def stopPosition (o : Outcome) : Nat :=
  match o.furthestFailure? with
  | some furthest => max furthest o.position
  | none => o.position

/-- The window around the position where matching stopped, if that is a position of `input`. -/
def stopWindow (o : Outcome) (options : Options) (input : String) : String :=
  match (Session.start input options).moveTo o.stopPosition with
  | .ok s => "stopped at " ++ toString o.stopPosition ++ ":\n" ++ s.window ++ "\n"
  | .error _ => ""

def textReport (o : Outcome) (options : Options) (view : View) (input : String) : String :=
  (if o.success then
    o.result.tree view
      ++ "matched " ++ toString o.position ++ " of " ++ toString o.inputLength ++ " chars\n"
  else o.result.display ++ "\n")
  ++ (if o.complete then "" else o.stopWindow options input)

def jsonReport (o : Outcome) (view : View) : String :=
  (Json.obj [("complete", .bool o.complete),
    ("furthest_failure", .ofOption .nat o.furthestFailure?),
    ("position", .nat o.position),
    ("result", o.result.toJson view),
    ("success", .bool o.success)]).pretty

/-- The report on the outcome of matching `input`. -/
def report (o : Outcome) (options : Options) (view : View) (format : ReportFormat) (input : String) :
    String :=
  match format with
  | .text => o.textReport options view input
  | .json => o.jsonReport view

end Outcome

namespace Grammar

def flags (g : Grammar) (start id : NodeId) : List String :=
  (if id = start then ["start"] else [])
    ++ (if g.isNullable id then ["nullable"] else [])
    ++ (if g.isLeftRecursive id then ["left-recursive"] else [])

def ruleLine (g : Grammar) (start id : NodeId) : String :=
  let flags := g.flags start id
  g.describe id ++ (if flags.isEmpty then "" else "    [" ++ ", ".intercalate flags ++ "]") ++ "\n"

/-- All rules, the figures, and a warning for every rule that is left-recursive and does not grow. -/
def report (g : Grammar) (start : NodeId) : String :=
  let m := g.metrics
  String.join (g.rules.map (g.ruleLine start))
    ++ "\n" ++ toString m.nodeCount ++ " nodes, " ++ toString m.ruleCount ++ " rules, "
    ++ toString m.nullableCount ++ " nullable, " ++ toString m.leftRecursiveCount
    ++ " left-recursive\n"
    ++ String.join (m.indirectlyLeftRecursive.map fun id =>
      "warning: " ++ g.label id ++ " is only indirectly left-recursive\n")

end Grammar

end Packrat
