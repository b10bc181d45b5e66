import Packrat.CharClass
import Packrat.CommandLine
import Packrat.Event
import Packrat.Grammar.Basic
import Packrat.Grammar.Builder
import Packrat.Grammar.Definition
import Packrat.Grammar.Leftmost
import Packrat.Grammar.Nullable
import Packrat.Grammar.Pattern
import Packrat.Grammar.Reference
import Packrat.Json
import Packrat.Log
import Packrat.Main
import Packrat.Match.Basic
import Packrat.Match.Tree
import Packrat.Matcher.Batch
import Packrat.Matcher.Call
import Packrat.Matcher.Parse
import Packrat.Matcher.Pattern
import Packrat.Matcher.Run
import Packrat.Memo
import Packrat.Proofs.Built
import Packrat.Proofs.CallAnswers
import Packrat.Proofs.CallSteps
import Packrat.Proofs.Carrying
import Packrat.Proofs.Conforming
import Packrat.Proofs.Contexts
import Packrat.Proofs.Depth
import Packrat.Proofs.Ending
import Packrat.Proofs.Faithful
import Packrat.Proofs.Finished
import Packrat.Proofs.Following
import Packrat.Proofs.Frozen
import Packrat.Proofs.Growth
import Packrat.Proofs.Holding
import Packrat.Proofs.Iteration
import Packrat.Proofs.Keeping
import Packrat.Proofs.LeftEdges
import Packrat.Proofs.Meaning
import Packrat.Proofs.MemoFree
import Packrat.Proofs.Nullability
import Packrat.Proofs.PatternAnswers
import Packrat.Proofs.RecursiveBody
import Packrat.Proofs.ReferenceGrammars
import Packrat.Proofs.Replay
import Packrat.Proofs.Runs
import Packrat.Proofs.Sessions
import Packrat.Proofs.Sound
import Packrat.Proofs.Trees
import Packrat.Proofs.Yields
import Packrat.Report
import Packrat.Session
import Packrat.Session.Window
import Packrat.Snapshot
import Packrat.Text.Column
import Packrat.Text.Quoted
import Packrat.Unicode.Alphabetic
import Packrat.Unicode.GraphemeExtend
import Packrat.Unicode.Numeric
import Packrat.Unicode.Ranges
import Packrat.Unicode.Unprintable
import Packrat.Unicode.WhiteSpace
import Packrat.Proofs.Computed
import Packrat.Proofs.Pairing
import Packrat.Proofs.Reuse
import Packrat.Proofs.LeftSearch
import Packrat.Proofs.Names
import Packrat.Proofs.Below
import Packrat.Proofs.Calls
import Packrat.Proofs.Analysis
import Packrat.Proofs.CallEvents
import Packrat.Proofs.DirectGrowth
import Packrat.Proofs.Traces
import Packrat.Proofs.TracedRuns
import Packrat.Proofs.Accounting
import Packrat.Proofs.Accounts
import Packrat.Proofs.Notes
import Packrat.Proofs.Shifting
import Packrat.Proofs.Suffixes
import Packrat.Proofs.Plain
import Packrat.Proofs.Failures
import Packrat.Proofs.FurthestFailure
import Packrat.Proofs.NullableSearch
import Packrat.Proofs.Unfolding
import Packrat.Proofs.Outlines
import Packrat.Proofs.Redirecting
import Packrat.Proofs.Aliases
import Packrat.Proofs.PatternSteps
import Packrat.Proofs.SumTexts
import Packrat.Proofs.Charts
import Packrat.Proofs.Numbers
import Packrat.Proofs.SumTrials
import Packrat.Proofs.SumGrowth
import Packrat.Proofs.Sums
import Packrat.Proofs.Visits
import Packrat.Proofs.Declarations
import Packrat.Proofs.Acceptance
import Packrat.Proofs.Reading
import Packrat.Proofs.Tokens
import Packrat.Proofs.Scanning
import Packrat.Proofs.Brackets
import Packrat.Proofs.Expansions
import Packrat.Proofs.ReadBack
import Packrat.Proofs.LeftRecursion
import Packrat.Proofs.Nesting
import Packrat.Proofs.Windows
