import Packrat.Matcher.Parse

/-!
# Batches

Many inputs matched against one grammar, each in a session of its own.
-/

namespace Packrat

/-- Inputs with the names by which their outcomes are known. -/
abbrev Batch := List (String × String)

structure BatchEntry where
  name : String
  outcome : Run Outcome

namespace BatchEntry

def complete (e : BatchEntry) : Bool :=
  match e.outcome with
  | .done outcome => outcome.complete
  | .fault _ _ | .exhausted => false

def aborted (e : BatchEntry) : Bool :=
  match e.outcome with
  | .done _ => false
  | .fault _ _ | .exhausted => true

end BatchEntry

namespace Batch

def run (g : Grammar) (options : Options) (start : NodeId) (batch : Batch) : List BatchEntry :=
  batch.map fun (name, input) => ⟨name, g.parse options start input⟩

end Batch

structure BatchSummary where
  total : Nat
  complete : Nat
  incomplete : Nat
  errors : Nat
deriving DecidableEq, Repr

namespace BatchSummary

/-- Counts the outcomes; every input is complete, incomplete or an error. -/
def ofEntries (entries : List BatchEntry) : BatchSummary :=
  let complete := entries.countP BatchEntry.complete
  let errors := entries.countP BatchEntry.aborted
  ⟨entries.length, complete, entries.length - complete - errors, errors⟩

end BatchSummary

end Packrat
