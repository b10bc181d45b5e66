import Packrat.Unicode.GraphemeExtend
import Packrat.Unicode.Unprintable

/-!
# Quoted text

Two ways to write a text so that it stays on one line and shows every character. `quoted` leaves
whatever can be seen as it is and is used for matched text; `asciiEscaped` leaves only the printable
characters of ASCII and is used for the literals of a grammar.
-/

namespace Packrat.Text

def braced (text : String) : String := String.singleton '{' ++ text ++ String.singleton '}'

@[simp] theorem toList_braced (text : String) : (braced text).toList = '{' :: (text.toList ++ ['}']) := by
  simp [braced]

/-- The scalar value of `c` in hexadecimal digits, without padding, between braces after `\u`. -/
def scalarEscape (c : Char) : String := "\\u" ++ braced (String.ofList (Nat.toDigits 16 c.toNat))

/-- One character of a text that stands between two `quote` characters. -/
def shownBetween (quote c : Char) : String :=
  if c = '\x00' then "\\0"
  else if c = '\t' then "\\t"
  else if c = '\r' then "\\r"
  else if c = '\n' then "\\n"
  else if c = '\\' then "\\\\"
  else if c = quote then String.ofList ['\\', c]
  else if Unicode.isOverlaid c || Unicode.isUnprintable c then scalarEscape c
  else String.singleton c

def quoted (text : String) : String :=
  "\"" ++ String.join (text.toList.map (shownBetween '"')) ++ "\""

def quotedChar (c : Char) : String :=
  "'" ++ shownBetween '\'' c ++ "'"

/-- One character in printable ASCII; both kinds of quote are escaped. -/
def asciiShown (c : Char) : String :=
  if c = '\t' then "\\t"
  else if c = '\r' then "\\r"
  else if c = '\n' then "\\n"
  else if c = '\'' || c = '"' || c = '\\' then String.ofList ['\\', c]
  else if ' ' ≤ c && c ≤ '~' then String.singleton c
  else scalarEscape c

def asciiEscaped (text : String) : String :=
  String.join (text.toList.map asciiShown)

end Packrat.Text
