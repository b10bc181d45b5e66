import Packrat.Report

/-!
# The command line

    match INPUT [--grammar G] [--full] [--history] [--format F] [--print-range N]
    show [--grammar G]

Options may stand before or after the input, each at most once. `-g` and `-f` are short for `--grammar`
and `--format`. The value of an option is the next word, or stands behind the option and an equals
sign; behind a short option the sign may be missing. A word that begins with a dash is an option,
except for a dash alone, even where a value is wanted; two dashes end the options.
-/

namespace Packrat

inductive CommandOption where
  | grammar
  | full
  | history
  | format
  | printRange
deriving DecidableEq, Repr

namespace CommandOption

def takesValue : CommandOption → Bool
  | .grammar | .format | .printRange => true
  | .full | .history => false

def ofLongName? : String → Option CommandOption
  | "grammar" => some .grammar
  | "full" => some .full
  | "history" => some .history
  | "format" => some .format
  | "print-range" => some .printRange
  | _ => none

def ofShortName? : Char → Option CommandOption
  | 'g' => some .grammar
  | 'f' => some .format
  | _ => none

end CommandOption

inductive CommandWord where
  | value (text : String)
  /-- An option with the text that is joined to it, if any. -/
  | named (option : CommandOption) (joined? : Option String)
  | endOfOptions
  /-- Looks like an option and is none. -/
  | unknown
deriving DecidableEq, Repr

namespace CommandWord

/-- Splits at the first equals sign. -/
def splitJoined (chars : List Char) : String × Option String :=
  match chars.span (· != '=') with
  | (name, []) => (String.ofList name, none)
  | (name, _ :: joined) => (String.ofList name, some (String.ofList joined))

/-- The text behind a short option, without an equals sign between. -/
def shortJoined : List Char → Option String
  | [] => none
  | '=' :: rest => some (String.ofList rest)
  | rest => some (String.ofList rest)

def ofString (word : String) : CommandWord :=
  match word.toList with
  | ['-', '-'] => .endOfOptions
  | '-' :: '-' :: rest =>
    let (name, joined?) := splitJoined rest
    match CommandOption.ofLongName? name with
    | some option => .named option joined?
    | none => .unknown
  | '-' :: short :: rest =>
    match CommandOption.ofShortName? short with
    | some option => .named option (shortJoined rest)
    | none => .unknown
  | _ => .value word

end CommandWord

structure CommandWords where
  inputs : List String := []
  options : List (CommandOption × String) := []
deriving DecidableEq, Repr

namespace CommandWords

/-- Adds an option with its value, unless it is there already. -/
def addOption? (words : CommandWords) (option : CommandOption) (value : String) :
    Option CommandWords :=
  if (words.options.lookup option).isSome then none
  else some { words with options := words.options ++ [(option, value)] }

/-- Sorts the words; `pending?` is the option that waits for its value. -/
def sort? (allowed : List CommandOption) :
    (pending? : Option CommandOption) → List String → CommandWords → Option CommandWords
  | none, [], words => some words
  | some _, [], _ => none
  | some option, word :: rest, words =>
    match CommandWord.ofString word with
    | .value text => (words.addOption? option text).bind (sort? allowed none rest)
    | .named _ _ | .endOfOptions | .unknown => none
  | none, word :: rest, words =>
    match CommandWord.ofString word with
    | .value text => sort? allowed none rest { words with inputs := words.inputs ++ [text] }
    | .endOfOptions => some { words with inputs := words.inputs ++ rest }
    | .unknown => none
    | .named option joined? =>
      if !allowed.contains option then none
      else
        match option.takesValue, joined? with
        | true, some value => (words.addOption? option value).bind (sort? allowed none rest)
        | true, none => sort? allowed (some option) rest words
        | false, none => (words.addOption? option "").bind (sort? allowed none rest)
        | false, some _ => none

def has (words : CommandWords) (option : CommandOption) : Bool :=
  (words.options.lookup option).isSome

/-- Reads the value of an option, if the option is there at all. -/
def read? {α : Type} (words : CommandWords) (option : CommandOption) (default : α)
    (read : String → Option α) : Option α :=
  match words.options.lookup option with
  | none => some default
  | some value => read value

end CommandWords

def largestNumber : Nat := UInt64.size - 1

/-- Reads decimal digits, after a plus sign or not. -/
def readNumber? (text : String) : Option Nat :=
  let digits := match text.toList with
    | '+' :: rest => rest
    | chars => chars
  if digits.isEmpty || digits.any (fun c => c < '0' || '9' < c) then none
  else
    let n := digits.foldl (fun n c => n * 10 + (c.toNat - '0'.toNat)) 0
    if n ≤ largestNumber then some n else none

inductive Command where
  | matchInput (input : String) (reference : Reference) (view : View) (format : ReportFormat)
    (options : Options)
  | showGrammar (reference : Reference)
  | version
  | help
deriving DecidableEq, Repr

namespace Command

def readMatch? (args : List String) : Option Command := do
  let words ← CommandWords.sort? [.grammar, .full, .history, .format, .printRange] none args {}
  let reference ← words.read? .grammar .expression Reference.ofName?
  let format ← words.read? .format .text ReportFormat.ofName?
  let printRange ← words.read? .printRange 10 readNumber?
  match words.inputs with
  | [input] =>
    some (.matchInput input reference (if words.has .full then .full else .visible) format
      { recordHistory := words.has .history, printRange := printRange })
  | _ => none

def readShow? (args : List String) : Option Command := do
  let words ← CommandWords.sort? [.grammar] none args {}
  let reference ← words.read? .grammar .expression Reference.ofName?
  match words.inputs with
  | [] => some (.showGrammar reference)
  | _ => none

/-- Reads the arguments; `none` is an error of usage. -/
def read? : List String → Option Command
  | "match" :: args => readMatch? args
  | "show" :: args => readShow? args
  | "help" :: _ | "--help" :: _ => some .help
  | "--version" :: _ => some .version
  | word :: _ =>
    match word.toList with
    | '-' :: 'V' :: _ => some .version
    | '-' :: 'h' :: _ => some .help
    | _ => none
  | [] => none

structure Reply where
  exitCode : Nat
  output : String
deriving DecidableEq, Repr

def usage : String :=
  "Usage: seedpeg match INPUT [--grammar G] [--full] [--history] [--format F] [--print-range N]\n"
    ++ "       seedpeg show [--grammar G]\n"

def historyReport (history? : Option History) : String :=
  match history? with
  | some history => "\n" ++ toString history.size ++ " events:\n" ++ history.render
  | none => ""

/-- The reply to a match; a match that failed has an exit code of its own. -/
def replyToMatch (input : String) (reference : Reference) (view : View) (format : ReportFormat)
    (options : Options) : Reply :=
  let target := reference.build
  match target.grammar.parse options target.start input with
  | .done o =>
    ⟨if o.success then 0 else 1,
      o.report options view format input ++ historyReport o.history?⟩
  | .fault _ _ | .exhausted => ⟨1, ""⟩

def reply : Command → Reply
  | .matchInput input reference view format options =>
    replyToMatch input reference view format options
  | .showGrammar reference =>
    let target := reference.build
    ⟨0, target.grammar.report target.start⟩
  | .version => ⟨0, "seedpeg 0.1.0\n"⟩
  | .help => ⟨0, usage⟩

def replyTo (args : List String) : Reply :=
  match read? args with
  | some command => command.reply
  | none => ⟨2, ""⟩

end Command

end Packrat
