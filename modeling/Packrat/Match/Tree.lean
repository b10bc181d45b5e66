import Packrat.Json
import Packrat.Match.Basic
import Packrat.Text.Column

/-!
# Trees

The two written forms of a match and all that it stands on: indented text, one line for each match,
and JSON. Both come in a visible view, in which a hidden match gives way to its children, and in a
full view. A hidden match at the root keeps its place only if it failed, so that there is always
something to say about a failure.
-/

namespace Packrat

inductive View where
  | visible
  | full
deriving DecidableEq, Repr

namespace View

def omits (view : View) (m : Match) : Bool :=
  match view with
  | .visible => m.hidden
  | .full => false

def omitsRoot (view : View) (m : Match) : Bool := view.omits m && m.success

end View

namespace Match

def line (depth : Nat) (m : Match) : String :=
  Text.spaces (depth * 2) ++ m.label ++ " " ++ Text.quoted m.text ++ " " ++ m.status.text ++ " "
    ++ toString m.start ++ ".." ++ toString m.stop ++ "\n"

mutual

def lines (view : View) (depth : Nat) : Match → String
  | ⟨success, start, stop, text, status, origin?, children⟩ =>
    let m : Match := ⟨success, start, stop, text, status, origin?, children⟩
    if view.omits m then linesAll view depth children
    else m.line depth ++ linesAll view (depth + 1) children

def linesAll (view : View) (depth : Nat) : List Match → String
  | [] => ""
  | m :: rest => lines view depth m ++ linesAll view depth rest

end

def tree (view : View) (m : Match) : String :=
  if view.omitsRoot m then linesAll view 0 m.children
  else m.line 0 ++ linesAll view 1 m.children

/-- One match as a JSON object; the children have a member of their own only if there are any. -/
def jsonObject (m : Match) (children : List Json) : Json :=
  .obj ([("data", .str m.text), ("e", .nat m.stop), ("left_recursion", .str m.status.text),
      ("s", .nat m.start)]
    ++ (if children.isEmpty then [] else [("subs", .arr children)])
    ++ [("type", .str m.label)])

mutual

/-- The JSON objects that stand for a match: its own, or those of its children. -/
def jsonNodes (view : View) : Match → List Json
  | ⟨success, start, stop, text, status, origin?, children⟩ =>
    let m : Match := ⟨success, start, stop, text, status, origin?, children⟩
    if view.omits m then jsonNodesAll view children
    else [m.jsonObject (jsonNodesAll view children)]

def jsonNodesAll (view : View) : List Match → List Json
  | [] => []
  | m :: rest => jsonNodes view m ++ jsonNodesAll view rest

end

/-- The tree as JSON: an object, or an array where the root is passed over. -/
def toJson (view : View) (m : Match) : Json :=
  if view.omitsRoot m then .arr (jsonNodesAll view m.children)
  else m.jsonObject (jsonNodesAll view m.children)

/-! Both recursions pass over hidden matches on the way. What they write below a match is its children in the view,
and below each of these the same again. -/

def shownChildren (view : View) (m : Match) : List Match :=
  match view with
  | .visible => m.visibleChildren
  | .full => m.children

theorem lines_of_omits {view : View} {m : Match} (h : view.omits m = true) (depth : Nat) :
    lines view depth m = linesAll view depth m.children := by
  cases m
  exact if_pos h

theorem lines_of_not_omits {view : View} {m : Match} (h : view.omits m = false) (depth : Nat) :
    lines view depth m = m.line depth ++ linesAll view (depth + 1) m.children := by
  cases m
  exact if_neg (Bool.eq_false_iff.1 h)

theorem jsonNodes_of_omits {view : View} {m : Match} (h : view.omits m = true) :
    jsonNodes view m = jsonNodesAll view m.children := by
  cases m
  exact if_pos h

theorem jsonNodes_of_not_omits {view : View} {m : Match} (h : view.omits m = false) :
    jsonNodes view m = [m.jsonObject (jsonNodesAll view m.children)] := by
  cases m
  exact if_neg (Bool.eq_false_iff.1 h)

mutual

theorem lines_visible : ∀ (m : Match) (depth : Nat), lines .visible depth m =
    String.join (m.unveiled.map fun c => c.line depth ++ linesAll .visible (depth + 1) c.children)
  | ⟨success, start, stop, text, status, origin?, children⟩, depth => by
    let m : Match := ⟨success, start, stop, text, status, origin?, children⟩
    cases homits : View.visible.omits m with
    | true =>
      rw [lines_of_omits homits, unveiled_of_hidden homits]
      exact linesAll_visible children depth
    | false =>
      rw [lines_of_not_omits homits, unveiled_of_visible homits, List.map_singleton, String.join_cons,
        String.join_nil, String.append_empty]

theorem linesAll_visible : ∀ (ms : List Match) (depth : Nat), linesAll .visible depth ms =
    String.join ((unveiledAll ms).map fun c => c.line depth ++ linesAll .visible (depth + 1) c.children)
  | [], _ => rfl
  | m :: rest, depth => by
    rw [linesAll, unveiledAll, List.map_append, String.join_append, lines_visible m, linesAll_visible rest]

end

mutual

theorem jsonNodes_visible : ∀ m : Match, jsonNodes .visible m =
    m.unveiled.map fun c => c.jsonObject (jsonNodesAll .visible c.children)
  | ⟨success, start, stop, text, status, origin?, children⟩ => by
    let m : Match := ⟨success, start, stop, text, status, origin?, children⟩
    cases homits : View.visible.omits m with
    | true =>
      rw [jsonNodes_of_omits homits, unveiled_of_hidden homits]
      exact jsonNodesAll_visible children
    | false => rw [jsonNodes_of_not_omits homits, unveiled_of_visible homits, List.map_singleton]

theorem jsonNodesAll_visible : ∀ ms : List Match, jsonNodesAll .visible ms =
    (unveiledAll ms).map fun c => c.jsonObject (jsonNodesAll .visible c.children)
  | [] => rfl
  | m :: rest => by
    rw [jsonNodesAll, unveiledAll, List.map_append, jsonNodes_visible m, jsonNodesAll_visible rest]

end

/-- The text below a match is the lines of its children in the view, each with the text below it. -/
theorem linesAll_children (view : View) (depth : Nat) (m : Match) : linesAll view depth m.children =
    String.join ((m.shownChildren view).map fun c => c.line depth ++ linesAll view (depth + 1) c.children) := by
  cases view with
  | visible => exact linesAll_visible m.children depth
  | full =>
    rw [shownChildren]
    induction m.children with
    | nil => rfl
    | cons c rest ih => rw [linesAll, lines_of_not_omits rfl, ih, List.map_cons, String.join_cons]

/-- The JSON below a match is the objects of its children in the view, each with the JSON below it. -/
theorem jsonNodesAll_children (view : View) (m : Match) : jsonNodesAll view m.children =
    (m.shownChildren view).map fun c => c.jsonObject (jsonNodesAll view c.children) := by
  cases view with
  | visible => exact jsonNodesAll_visible m.children
  | full =>
    rw [shownChildren]
    induction m.children with
    | nil => rfl
    | cons c rest ih => rw [jsonNodesAll, jsonNodes_of_not_omits rfl, ih, List.map_cons, List.singleton_append]

end Match

end Packrat
