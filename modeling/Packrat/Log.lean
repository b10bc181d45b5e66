import Packrat.Grammar.Leftmost
import Packrat.Matcher.Parse

/-!
# Log records

What is reported to the log while a grammar is built and an input is matched. Everything that the
matcher reports follows from its events: each event is a record of its own, and those that begin, end
or discover left recursion have another record before them.
-/

namespace Packrat

inductive LogLevel where
  | trace
  | debug
  | warn
deriving DecidableEq, Repr

namespace LogLevel

def name : LogLevel → String
  | .trace => "TRACE"
  | .debug => "DEBUG"
  | .warn => "WARN"

end LogLevel

structure LogRecord where
  level : LogLevel
  /-- The part of the program that reports. -/
  target : String
  /-- Named values; the first is the message. -/
  fields : List (String × String)
deriving DecidableEq, Repr

namespace Grammar

def buildLog (g : Grammar) : List LogRecord :=
  let m := g.metrics
  { level := .debug
    target := "seedpeg::grammar::builder"
    fields := [("message", "built grammar"), ("nodes", toString m.nodeCount),
      ("rules", toString m.ruleCount), ("nullable", toString m.nullableCount),
      ("left_recursive", toString m.leftRecursiveCount)] }
  :: m.indirectlyLeftRecursive.map fun id =>
    { level := .warn
      target := "seedpeg::grammar::builder"
      fields := [("message", "rule is only indirectly left-recursive and will not be grown"),
        ("rule", g.label id)] }

end Grammar

namespace Event

/-- The record before an event about left recursion. -/
def notice? (e : Event) : Option LogRecord :=
  let record (fields : List (String × String)) : LogRecord :=
    { level := .trace, target := "seedpeg::parser::dispatch", fields := fields }
  match e.kind with
  | .identifyLeftRecursion =>
    some (record [("message", "left recursion detected"), ("rule", e.label),
      ("position", toString e.start)])
  | .beginGrow =>
    some (record [("message", "growing seed"), ("rule", e.label), ("position", toString e.start),
      ("seed_end", toString e.stop)])
  | .growTerminate iterations =>
    some (record [("message", "growing finished"), ("rule", e.label), ("initial", toString e.start),
      ("farthest", toString e.stop), ("iterations", toString iterations)])
  | _ => none

def log (e : Event) : List LogRecord :=
  e.notice?.toList
    ++ [{ level := .trace, target := "seedpeg::event", fields := [("message", e.display)] }]

end Event

namespace Outcome

def finished (o : Outcome) : LogRecord where
  level := .debug
  target := "seedpeg::parser"
  fields := [("message", "match finished"), ("success", toString o.success),
    ("position", toString o.position), ("complete", toString o.complete),
    ("memo_entries", toString o.memoEntries)]

end Outcome

namespace Grammar

/-- A parse together with its records. The events are recorded for their sake, and kept in the outcome
only if the options ask for them. -/
def parseLogged (g : Grammar) (options : Options) (start : Start) (input : String) :
    Run Outcome × List LogRecord :=
  match start.resolve g with
  | .error e => (.fault e (Session.start input options), [])
  | .ok id =>
    let started : LogRecord :=
      { level := .debug
        target := "seedpeg::parser"
        fields := [("message", "match started"), ("start", NodeId.text id),
          ("input_len", toString input.length)] }
    match g.parse { options with recordHistory := true } id input with
    | .done o =>
      let events := (o.history?.getD #[]).toList.flatMap Event.log
      let history? := if options.recordHistory then o.history? else none
      (.done { o with history? := history? }, started :: events ++ [o.finished])
    | .fault e s => (.fault e s, [started])
    | .exhausted => (.exhausted, [started])

end Grammar

end Packrat
