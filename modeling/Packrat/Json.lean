import Packrat.Text.Quoted

/-!
# JSON values

The values that reports and trees are made of, and their two written forms. Numbers are natural
numbers, which is all that positions and counts need. The members of an object are written in the
order in which they are given.
-/

namespace Packrat

inductive Json where
  | null
  | bool (b : Bool)
  | nat (n : Nat)
  | str (s : String)
  | arr (items : List Json)
  | obj (members : List (String × Json))
deriving Inhabited

namespace Json

private def hexDigit (n : Nat) : Char := (Nat.digitChar (n % 16))

/-- One character inside a string: quotes, backslashes and controls below U+0020 are escaped. -/
def shownChar (c : Char) : String :=
  if c = '"' then "\\\""
  else if c = '\\' then "\\\\"
  else if c = '\n' then "\\n"
  else if c = '\r' then "\\r"
  else if c = '\t' then "\\t"
  else if c = '\x08' then "\\b"
  else if c = '\x0c' then "\\f"
  else if c < ' ' then
    String.ofList ['\\', 'u', '0', '0', hexDigit (c.toNat / 16), hexDigit c.toNat]
  else String.singleton c

def shownString (s : String) : String :=
  "\"" ++ String.join (s.toList.map shownChar) ++ "\""

mutual

/-- The shortest form, without any space or line break. -/
def compact : Json → String
  | .null => "null"
  | .bool b => toString b
  | .nat n => toString n
  | .str s => shownString s
  | .arr items => "[" ++ ",".intercalate (compactItems items) ++ "]"
  | .obj members => Text.braced (",".intercalate (compactMembers members))

def compactItems : List Json → List String
  | [] => []
  | item :: rest => item.compact :: compactItems rest

def compactMembers : List (String × Json) → List String
  | [] => []
  | (key, value) :: rest => (shownString key ++ ":" ++ value.compact) :: compactMembers rest

end

/-- Written lines between two brackets, each on its own line one level further in. -/
private def block (opening closing : Char) (indent : String) (lines : List String) : String :=
  if lines.isEmpty then String.ofList [opening, closing]
  else
    let inner := indent ++ "  "
    String.ofList [opening, '\n'] ++ ",\n".intercalate (lines.map (inner ++ ·)) ++ "\n" ++ indent
      ++ String.singleton closing

mutual

/-- The form over several lines, two spaces for each level; `indent` opens the closing line. -/
def prettyAt (indent : String) : Json → String
  | .null => "null"
  | .bool b => toString b
  | .nat n => toString n
  | .str s => shownString s
  | .arr items => block '[' ']' indent (prettyItems (indent ++ "  ") items)
  | .obj members => block '{' '}' indent (prettyMembers (indent ++ "  ") members)

def prettyItems (indent : String) : List Json → List String
  | [] => []
  | item :: rest => prettyAt indent item :: prettyItems indent rest

def prettyMembers (indent : String) : List (String × Json) → List String
  | [] => []
  | (key, value) :: rest =>
    (shownString key ++ ": " ++ prettyAt indent value) :: prettyMembers indent rest

end

def pretty (value : Json) : String := prettyAt "" value

def ofOption {α : Type} (encode : α → Json) : Option α → Json
  | none => .null
  | some a => encode a

end Json

end Packrat
