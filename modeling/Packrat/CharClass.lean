import Packrat.Text.Quoted
import Packrat.Unicode.Alphabetic
import Packrat.Unicode.Numeric
import Packrat.Unicode.WhiteSpace

/-!
# Character classes

A character class is a test on one character, together with the way it is written in a definition.
-/

namespace Packrat

inductive CharClass where
  /-- The ASCII digits. -/
  | digit
  /-- The alphabetic characters of Unicode. -/
  | letter
  /-- The white space of Unicode. -/
  | whitespace
  /-- The alphabetic and the numeric characters of Unicode. -/
  | alphanumeric
  | any
  /-- The characters from `lo` to `hi`, both included; none if `hi` is below `lo`. -/
  | range (lo hi : Char)
  /-- A test supplied by the author of the grammar, known by its name. -/
  | custom (name : String) (test : Char → Bool)

namespace CharClass

def accepts : CharClass → Char → Bool
  | .digit, c => '0' ≤ c && c ≤ '9'
  | .letter, c => Unicode.isAlphabetic c
  | .whitespace, c => Unicode.isWhiteSpace c
  | .alphanumeric, c => Unicode.isAlphabetic c || Unicode.isNumeric c
  | .any, _ => true
  | .range lo hi, c => lo ≤ c && c ≤ hi
  | .custom _ test, c => test c

def definition : CharClass → String
  | .digit => "[0-9]"
  | .letter => "[:alpha:]"
  | .whitespace => "[:space:]"
  | .alphanumeric => "[:alnum:]"
  | .any => "."
  | .range lo hi => String.ofList ['[', lo, '-', hi, ']']
  | .custom name _ => "<" ++ name ++ ">"

def name : CharClass → String
  | .digit => "digit"
  | .letter => "letter"
  | .whitespace => "whitespace"
  | .alphanumeric => "alphanumeric"
  | .any => "any"
  | .range _ _ => "range"
  | .custom name _ => name

/-- The class with its parameters, for messages to the author of a grammar. -/
def inspect : CharClass → String
  | .digit => "Digit"
  | .letter => "Letter"
  | .whitespace => "Whitespace"
  | .alphanumeric => "Alphanumeric"
  | .any => "Any"
  | .range lo hi => "Range(" ++ Text.quotedChar lo ++ ", " ++ Text.quotedChar hi ++ ")"
  | .custom name _ => "Custom " ++ Text.braced (" name: " ++ Text.quoted name ++ " ")

/-- Classes are compared by their parameters, and two tests of the author by their names alone. -/
protected def beq : CharClass → CharClass → Bool
  | .digit, .digit => true
  | .letter, .letter => true
  | .whitespace, .whitespace => true
  | .alphanumeric, .alphanumeric => true
  | .any, .any => true
  | .range lo hi, .range lo' hi' => lo == lo' && hi == hi'
  | .custom name _, .custom name' _ => name == name'
  | _, _ => false

instance : BEq CharClass := ⟨CharClass.beq⟩

end CharClass

end Packrat
