import Packrat.Grammar.Definition
import Mathlib.Data.List.Basic

/-!
# Readings

What a reader makes of a definition is a tree again, of texts, classes and names as they are written. Two such trees
mean the same if they have the same normal form: a sequence inside of a sequence gives way to its items, and a sequence
or choice of one is that one.
-/

namespace Packrat

inductive Reading where
  | literal (text : String)
  /-- A class, as it is written. -/
  | charClass (written : String)
  | rule (name : String)
  | sequence (items : List Reading)
  | choice (alternatives : List Reading)
  | repetition (body : Reading) (min : Nat) (max? : Option Nat)
  | predicate (body : Reading) (expected : Bool)

namespace Expr

mutual

/-- The expression itself, of which a reader sees the classes as they are written. -/
def reading : Expr → Reading
  | .literal text => .literal text
  | .charClass cls => .charClass cls.definition
  | .rule name => .rule name
  | .missing id => .charClass ("<" ++ NodeId.text id ++ ">")
  | .sequence items => .sequence (readingAll items)
  | .choice alternatives => .choice (readingAll alternatives)
  | .repetition body min max? => .repetition body.reading min max?
  | .predicate body expected => .predicate body.reading expected

def readingAll : List Expr → List Reading
  | [] => []
  | e :: rest => e.reading :: readingAll rest

end

theorem readingAll_eq_map (es : List Expr) : readingAll es = es.map reading := by
  induction es with
  | nil => rfl
  | cons e rest ih => rw [readingAll, ih, List.map_cons]

end Expr

namespace Reading

def parts : Reading → List Reading
  | .sequence items => items
  | r => [r]

def ofItems : List Reading → Reading
  | [r] => r
  | items => .sequence items

def ofAlternatives : List Reading → Reading
  | [r] => r
  | alternatives => .choice alternatives

mutual

def normal : Reading → Reading
  | .literal text => .literal text
  | .charClass written => .charClass written
  | .rule name => .rule name
  | .sequence items => ofItems (normalItems items)
  | .choice alternatives => ofAlternatives (normalAll alternatives)
  | .repetition body min max? => .repetition body.normal min max?
  | .predicate body expected => .predicate body.normal expected

def normalItems : List Reading → List Reading
  | [] => []
  | r :: rest => r.normal.parts ++ normalItems rest

def normalAll : List Reading → List Reading
  | [] => []
  | r :: rest => r.normal :: normalAll rest

end

variable {r s : Reading} {items rs ss : List Reading}

theorem normalItems_eq_flatMap (rs : List Reading) : normalItems rs = rs.flatMap fun r => r.normal.parts := by
  induction rs with
  | nil => rfl
  | cons r rest ih => rw [normalItems, ih, List.flatMap_cons]

theorem normalAll_eq_map (rs : List Reading) : normalAll rs = rs.map normal := by
  induction rs with
  | nil => rfl
  | cons r rest ih => rw [normalAll, ih, List.map_cons]

theorem normalItems_singleton (r : Reading) : normalItems [r] = r.normal.parts := by
  simp [normalItems]

/-! ## Sequences in normal form -/

def IsSequence : Reading → Prop
  | .sequence _ => True
  | _ => False

theorem parts_of_not_isSequence (h : ¬ r.IsSequence) : r.parts = [r] := by
  cases r <;> simp_all [IsSequence, parts]

theorem parts_ofItems (h : ∀ r ∈ items, ¬ r.IsSequence) : (ofItems items).parts = items := by
  match items, h with
  | [], _ => rfl
  | [r], h => exact parts_of_not_isSequence (h r List.mem_cons_self)
  | _ :: _ :: _, _ => rfl

/-- A sequence with other than one item, none of which is a sequence; or anything else. -/
def Flat (r : Reading) : Prop := (∀ x ∈ r.parts, ¬ x.IsSequence) ∧ (r.IsSequence → r.parts.length ≠ 1)

theorem ofItems_parts (h : r.Flat) : ofItems r.parts = r := by
  by_cases hsequence : r.IsSequence
  · cases r with
    | sequence items =>
      have hlength : items.length ≠ 1 := h.2 trivial
      match items, hlength with
      | [], _ => rfl
      | [_], hlength => exact absurd rfl hlength
      | _ :: _ :: _, _ => rfl
    | _ => exact hsequence.elim
  · rw [parts_of_not_isSequence hsequence, ofItems]

theorem flat_of_not_isSequence (h : ¬ r.IsSequence) : r.Flat := by
  refine ⟨?_, fun hsequence => absurd hsequence h⟩
  rw [parts_of_not_isSequence h]
  simpa using h

theorem flat_ofItems (h : ∀ r ∈ items, ¬ r.IsSequence) : (ofItems items).Flat := by
  refine ⟨by rwa [parts_ofItems h], ?_⟩
  rw [parts_ofItems h]
  intro hsequence hlength
  obtain ⟨r, rfl⟩ := List.length_eq_one_iff.1 hlength
  exact h r List.mem_cons_self hsequence

mutual

theorem flat_normal : (r : Reading) → r.normal.Flat
  | .literal _ | .charClass _ | .rule _ | .repetition _ _ _ | .predicate _ _ => flat_of_not_isSequence id
  | .sequence items => flat_ofItems (not_isSequence_of_mem_normalItems items)
  | .choice alternatives => by
    match alternatives with
    | [] => exact flat_of_not_isSequence id
    | [r] => exact flat_normal r
    | _ :: _ :: _ => exact flat_of_not_isSequence id

/-- In a normal form no item of a sequence is a sequence. -/
theorem not_isSequence_of_mem_normalItems : (rs : List Reading) → ∀ x ∈ normalItems rs, ¬ x.IsSequence
  | [], x, hx => by simp [normalItems] at hx
  | r :: rest, x, hx => by
    rcases List.mem_append.1 hx with hx | hx
    · exact (flat_normal r).1 x hx
    · exact not_isSequence_of_mem_normalItems rest x hx

end

theorem parts_normal_sequence (items : List Reading) : (normal (.sequence items)).parts = normalItems items :=
  parts_ofItems (not_isSequence_of_mem_normalItems items)

/-- Two readings mean the same if they have the same parts. -/
theorem normal_eq_iff : r.normal = s.normal ↔ r.normal.parts = s.normal.parts := by
  refine ⟨congrArg parts, ?_⟩
  intro h
  rw [← ofItems_parts (flat_normal r), h, ofItems_parts (flat_normal s)]

/-! ## Leaves -/

mutual

def Solid : Reading → Prop
  | .literal _ | .charClass _ | .rule _ => True
  | .sequence items => items ≠ [] ∧ SolidAll items
  | .choice alternatives => alternatives ≠ [] ∧ SolidAll alternatives
  | .repetition body _ _ => body.Solid
  | .predicate body _ => body.Solid

def SolidAll : List Reading → Prop
  | [] => True
  | r :: rest => r.Solid ∧ SolidAll rest

def leaves : Reading → Nat
  | .literal _ | .charClass _ | .rule _ => 1
  | .sequence items => leavesOfAll items
  | .choice alternatives => leavesOfAll alternatives
  | .repetition body _ _ => body.leaves
  | .predicate body _ => body.leaves

def leavesOfAll : List Reading → Nat
  | [] => 0
  | r :: rest => r.leaves + leavesOfAll rest

end

theorem solidAll_iff : SolidAll rs ↔ ∀ r ∈ rs, r.Solid := by
  induction rs with
  | nil => simp [SolidAll]
  | cons r rest ih => simp [SolidAll, ih]

theorem leavesOfAll_append (rs ss : List Reading) : leavesOfAll (rs ++ ss) = leavesOfAll rs + leavesOfAll ss := by
  induction rs with
  | nil => simp [leavesOfAll]
  | cons r rest ih => rw [List.cons_append, leavesOfAll, ih, leavesOfAll, Nat.add_assoc]

theorem leavesOfAll_singleton (r : Reading) : leavesOfAll [r] = r.leaves := rfl

theorem leavesOfAll_parts (r : Reading) : leavesOfAll r.parts = r.leaves := by
  cases r <;> rfl

theorem leaves_ofItems (items : List Reading) : (ofItems items).leaves = leavesOfAll items := by
  match items with
  | [] => rfl
  | [r] => rfl
  | _ :: _ :: _ => rfl

theorem leaves_ofAlternatives (alternatives : List Reading) :
    (ofAlternatives alternatives).leaves = leavesOfAll alternatives := by
  match alternatives with
  | [] => rfl
  | [r] => rfl
  | _ :: _ :: _ => rfl

mutual

theorem leaves_normal : (r : Reading) → r.normal.leaves = r.leaves
  | .literal _ | .charClass _ | .rule _ => rfl
  | .sequence items => by rw [normal, leaves_ofItems, leavesOfAll_normalItems items, leaves]
  | .choice alternatives => by rw [normal, leaves_ofAlternatives, leavesOfAll_normalAll alternatives, leaves]
  | .repetition body _ _ => by rw [normal, leaves, leaves_normal body, leaves]
  | .predicate body _ => by rw [normal, leaves, leaves_normal body, leaves]

theorem leavesOfAll_normalItems : (rs : List Reading) → leavesOfAll (normalItems rs) = leavesOfAll rs
  | [] => rfl
  | r :: rest => by
    rw [normalItems, leavesOfAll_append, leavesOfAll_parts, leaves_normal r, leavesOfAll_normalItems rest, leavesOfAll]

theorem leavesOfAll_normalAll : (rs : List Reading) → leavesOfAll (normalAll rs) = leavesOfAll rs
  | [] => rfl
  | r :: rest => by rw [normalAll, leavesOfAll, leaves_normal r, leavesOfAll_normalAll rest, leavesOfAll]

end

mutual

theorem leaves_pos : (r : Reading) → r.Solid → 0 < r.leaves
  | .literal _, _ | .charClass _, _ | .rule _, _ => Nat.one_pos
  | .sequence items, h => leavesOfAll_pos items h.1 h.2
  | .choice alternatives, h => leavesOfAll_pos alternatives h.1 h.2
  | .repetition body _ _, h => leaves_pos body h
  | .predicate body _, h => leaves_pos body h

theorem leavesOfAll_pos : (rs : List Reading) → rs ≠ [] → SolidAll rs → 0 < leavesOfAll rs
  | [], hne, _ => absurd rfl hne
  | r :: rest, _, h => Nat.add_pos_left (leaves_pos r h.1) (leavesOfAll rest)

end

theorem normalItems_ne_nil (hne : rs ≠ []) (h : SolidAll rs) : normalItems rs ≠ [] := by
  intro hnil
  have hleaves := leavesOfAll_normalItems rs
  rw [hnil, leavesOfAll] at hleaves
  have hpos := leavesOfAll_pos rs hne h
  omega

theorem solidAll_parts (h : r.Solid) : SolidAll r.parts := by
  cases r with
  | sequence items => exact h.2
  | _ => exact ⟨h, trivial⟩

mutual

theorem solid_normal : (r : Reading) → r.Solid → r.normal.Solid
  | .literal _, _ | .charClass _, _ | .rule _, _ => trivial
  | .repetition body _ _, h => solid_normal body h
  | .predicate body _, h => solid_normal body h
  | .sequence items, h => by
    have hall := solidAll_normalItems items h.2
    have hne := normalItems_ne_nil h.1 h.2
    match hitems : normalItems items, hne with
    | [r], _ => simp_all [normal, ofItems, SolidAll]
    | _ :: _ :: _, _ => simp_all [normal, ofItems, Solid]
  | .choice alternatives, h => by
    have hall := solidAll_normalAll alternatives h.2
    match alternatives, h.1 with
    | [r], _ => exact hall.1
    | _ :: _ :: _, _ => exact ⟨by simp [normalAll], hall⟩

theorem solidAll_normalItems : (rs : List Reading) → SolidAll rs → SolidAll (normalItems rs)
  | [], _ => trivial
  | r :: rest, h => by
    have hparts := solidAll_iff.1 (solidAll_parts (solid_normal r h.1))
    have hrest := solidAll_iff.1 (solidAll_normalItems rest h.2)
    rw [solidAll_iff]
    intro x hx
    rcases List.mem_append.1 hx with hx | hx
    · exact hparts x hx
    · exact hrest x hx

theorem solidAll_normalAll : (rs : List Reading) → SolidAll rs → SolidAll (normalAll rs)
  | [], _ => trivial
  | r :: rest, h => ⟨solid_normal r h.1, solidAll_normalAll rest h.2⟩

end

end Reading

end Packrat
