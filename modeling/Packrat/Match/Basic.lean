import Packrat.Grammar.Pattern

/-!
# Matches

The answer to one call of a node at one position, and the tree that it stands on. A match may have
failed; failure is an ordinary answer, without children and of empty span. Positions count
characters.
-/

namespace Packrat

/-- What is known about left recursion of a rule at a position. -/
inductive Status where
  /-- The rule is being evaluated there, so that a further call would be left recursion. -/
  | possible
  /-- There was such a call. -/
  | detected
  /-- The evaluation ended without such a call. -/
  | impossible
deriving DecidableEq, Repr

namespace Status

def text : Status → String
  | .possible => "POSSIBLE"
  | .detected => "DETECTED"
  | .impossible => "IMPOSSIBLE"

def name : Status → String
  | .possible => "Possible"
  | .detected => "Detected"
  | .impossible => "Impossible"

def all : List Status := [.possible, .detected, .impossible]

def ofName? (name : String) : Option Status :=
  all.find? (fun status => status.name == name)

end Status

structure Match where
  success : Bool
  start : Nat
  stop : Nat
  /-- The characters from `start` to `stop`. -/
  text : String
  status : Status
  /-- The node that the match comes from, once it is known. -/
  origin? : Option Origin
  children : List Match

namespace Match

private def failing (position : Nat) (status : Status) : Match :=
  ⟨false, position, position, "", status, none, []⟩

/-- A failure that no further evaluation will change. -/
def fail (position : Nat) : Match := failing position .impossible

/-- The failure that stands for a rule while its body is evaluated for the first time. -/
def placeholder (position : Nat) : Match := failing position .possible

/-- The match of the empty text, to which children may be added. -/
def empty (position : Nat) : Match := { failing position .possible with success := true }

def leaf (start : Nat) (text : String) : Match :=
  { empty start with stop := start + text.length, text := text }

/-- Adds a child at the end. The first child brings its own start, and every other one begins where
the last one ended. -/
def push (m child : Match) : Match :=
  { m with
    start := if m.children.isEmpty then child.start else m.start
    stop := child.stop
    text := if m.children.isEmpty then child.text else m.text ++ child.text
    children := m.children ++ [child] }

def withStatus (m : Match) (status : Status) : Match := { m with status := status }

/-- Records the node that the match comes from. -/
def stamp (m : Match) (origin : Origin) : Match := { m with origin? := some origin }

def length (m : Match) : Nat := m.stop - m.start

def isEmpty (m : Match) : Bool := m.start == m.stop

def name? (m : Match) : Option String := m.origin?.bind Origin.name?

def isAlias (m : Match) : Bool := m.origin?.any Origin.isAlias

def kind? (m : Match) : Option Kind := m.origin?.map Origin.kind

def label (m : Match) : String := (m.origin?.map Origin.label).getD "?"

/-- Hidden matches have no line of their own in the visible tree. -/
def hidden (m : Match) : Bool := (m.origin?.map Origin.hidden).getD true

@[simp] theorem success_fail (position : Nat) : (fail position).success = false := rfl

@[simp] theorem start_fail (position : Nat) : (fail position).start = position := rfl

@[simp] theorem stop_fail (position : Nat) : (fail position).stop = position := rfl

@[simp] theorem children_fail (position : Nat) : (fail position).children = [] := rfl

@[simp] theorem status_fail (position : Nat) : (fail position).status = .impossible := rfl

@[simp] theorem success_empty (position : Nat) : (empty position).success = true := rfl

@[simp] theorem start_empty (position : Nat) : (empty position).start = position := rfl

@[simp] theorem stop_empty (position : Nat) : (empty position).stop = position := rfl

@[simp] theorem children_empty (position : Nat) : (empty position).children = [] := rfl

@[simp] theorem success_leaf (start : Nat) (text : String) : (leaf start text).success = true := rfl

@[simp] theorem start_leaf (start : Nat) (text : String) : (leaf start text).start = start := rfl

@[simp] theorem children_leaf (start : Nat) (text : String) : (leaf start text).children = [] := rfl

@[simp] theorem stop_leaf (start : Nat) (text : String) :
    (leaf start text).stop = start + text.length := rfl

@[simp] theorem stop_push (m child : Match) : (m.push child).stop = child.stop := rfl

@[simp] theorem children_push (m child : Match) :
    (m.push child).children = m.children ++ [child] := rfl

@[simp] theorem success_push (m child : Match) : (m.push child).success = m.success := rfl

@[simp] theorem success_withStatus (m : Match) (status : Status) :
    (m.withStatus status).success = m.success := rfl

@[simp] theorem start_withStatus (m : Match) (status : Status) :
    (m.withStatus status).start = m.start := rfl

@[simp] theorem stop_withStatus (m : Match) (status : Status) : (m.withStatus status).stop = m.stop := rfl

@[simp] theorem status_withStatus (m : Match) (status : Status) :
    (m.withStatus status).status = status := rfl

@[simp] theorem children_withStatus (m : Match) (status : Status) :
    (m.withStatus status).children = m.children := rfl

@[simp] theorem success_stamp (m : Match) (origin : Origin) : (m.stamp origin).success = m.success := rfl

@[simp] theorem start_stamp (m : Match) (origin : Origin) : (m.stamp origin).start = m.start := rfl

@[simp] theorem stop_stamp (m : Match) (origin : Origin) : (m.stamp origin).stop = m.stop := rfl

@[simp] theorem children_stamp (m : Match) (origin : Origin) : (m.stamp origin).children = m.children := rfl

mutual

/-- What stands for a match in the visible tree: itself, or, if it is hidden, whatever stands for its
children. -/
def unveiled : Match → List Match
  | ⟨success, start, stop, text, status, origin?, children⟩ =>
    let m : Match := ⟨success, start, stop, text, status, origin?, children⟩
    if m.hidden then unveiledAll children else [m]

def unveiledAll : List Match → List Match
  | [] => []
  | m :: rest => unveiled m ++ unveiledAll rest

end

theorem unveiled_of_hidden {m : Match} (h : m.hidden = true) : m.unveiled = unveiledAll m.children := by
  cases m
  exact if_pos h

theorem unveiled_of_visible {m : Match} (h : m.hidden = false) : m.unveiled = [m] := by
  cases m
  exact if_neg (Bool.eq_false_iff.1 h)

def visibleChildren (m : Match) : List Match := unveiledAll m.children

mutual

theorem not_hidden_of_mem_unveiled : (root : Match) → ∀ m ∈ unveiled root, m.hidden = false
  | ⟨success, start, stop, text, status, origin?, children⟩ => by
    intro m hm
    simp only [unveiled] at hm
    split at hm
    · exact not_hidden_of_mem_unveiledAll children m hm
    · rename_i h
      rw [List.mem_singleton.1 hm]
      exact eq_false_of_ne_true h

/-- What stands for a match in the visible tree is not hidden itself. -/
theorem not_hidden_of_mem_unveiledAll : (ms : List Match) → ∀ m ∈ unveiledAll ms, m.hidden = false
  | [], m, hm => by simp [unveiledAll] at hm
  | root :: rest, m, hm => by
    rcases List.mem_append.1 hm with hm | hm
    · exact not_hidden_of_mem_unveiled root m hm
    · exact not_hidden_of_mem_unveiledAll rest m hm

end

def display (m : Match) : String :=
  if m.success then
    m.label ++ " " ++ Text.quoted m.text ++ " [" ++ toString m.start ++ ".." ++ toString m.stop ++ "] "
      ++ m.status.text
  else
    m.label ++ " failed at " ++ toString m.start ++ " " ++ m.status.text

mutual

def decideEq : (a b : Match) → Decidable (a = b)
  | ⟨s₁, b₁, e₁, t₁, r₁, o₁, c₁⟩, ⟨s₂, b₂, e₂, t₂, r₂, o₂, c₂⟩ =>
    if h : s₁ = s₂ ∧ b₁ = b₂ ∧ e₁ = e₂ ∧ t₁ = t₂ ∧ r₁ = r₂ ∧ o₁ = o₂ then
      match decideEqAll c₁ c₂ with
      | isTrue hc => isTrue (by obtain ⟨rfl, rfl, rfl, rfl, rfl, rfl⟩ := h; rw [hc])
      | isFalse hc => isFalse (by intro he; injection he; contradiction)
    else isFalse (by intro he; injection he; simp_all)

def decideEqAll : (as bs : List Match) → Decidable (as = bs)
  | [], [] => isTrue rfl
  | [], _ :: _ => isFalse (by simp)
  | _ :: _, [] => isFalse (by simp)
  | a :: as, b :: bs =>
    match decideEq a b, decideEqAll as bs with
    | isTrue h, isTrue hs => isTrue (by rw [h, hs])
    | isFalse h, _ => isFalse (by intro he; injection he; contradiction)
    | _, isFalse hs => isFalse (by intro he; injection he; contradiction)

end

instance : DecidableEq Match := decideEq

end Match

end Packrat
