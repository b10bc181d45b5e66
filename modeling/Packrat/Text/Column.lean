/-!
# Columns

Text set in columns of a least width, counted in characters. A text that is too wide is not cut.
-/

namespace Packrat.Text

def spaces (n : Nat) : String :=
  String.ofList (List.replicate n ' ')

def alignLeft (width : Nat) (text : String) : String :=
  text ++ spaces (width - text.length)

def alignRight (width : Nat) (text : String) : String :=
  spaces (width - text.length) ++ text

@[simp] theorem length_spaces (n : Nat) : (spaces n).length = n := by
  simp [spaces]

theorem length_alignLeft (width : Nat) (text : String) :
    (alignLeft width text).length = max width text.length := by
  simp [alignLeft]
  omega

theorem length_alignRight (width : Nat) (text : String) :
    (alignRight width text).length = max width text.length := by
  simp [alignRight]
  omega

end Packrat.Text
