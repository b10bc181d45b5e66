import Packrat.Proofs.Brackets
import Packrat.Proofs.Expansions
import Packrat.Proofs.Scanning

/-!
# Reading definitions back

The definition of a node can always be read again. What is read is the expression of the node if and only if the
expression is well bracketed. A sequence with a choice for an item is not: its definition reads as a choice between
sequences.
-/

namespace Packrat

/-- What definitions are relied upon for: there is something to read, and names and classes can be told from what is
around them. -/
structure Node.Readable (node : Node) : Prop where
  not_empty : node.pattern ≠ .sequence [] ∧ node.pattern ≠ .choice []
  isName : ∀ name ∈ node.name?, Mode.IsName name
  legible : ∀ cls, node.pattern = .charClass cls → cls.Legible

namespace Grammar

/-- Every node can be read, and no definition is without an end. -/
structure Readable (g : Grammar) : Prop where
  noUnnamedCycle : g.NoUnnamedCycle
  node : ∀ {id node}, g.node? id = some node → node.Readable

variable {g : Grammar}

mutual

theorem Expands.solid (hg : g.Readable) {id : NodeId} {e : Expr} : g.Expands id e → e.Solid
  | .missing _ => trivial
  | .node hnode he => he.solid hg (hg.node hnode).not_empty
termination_by structural h => h

theorem Spells.solid (hg : g.Readable) {pattern : Pattern} {e : Expr} :
    g.Spells pattern e → pattern ≠ .sequence [] ∧ pattern ≠ .choice [] → e.Solid
  | .literal _, _ | .charClass _, _ => trivial
  | .sequence hes, hne => by
    refine ⟨?_, hes.solid hg⟩
    rintro rfl
    cases hes
    exact hne.1 rfl
  | .choice hes, hne => by
    refine ⟨?_, hes.solid hg⟩
    rintro rfl
    cases hes
    exact hne.2 rfl
  | .repetition he, _ => he.solid hg
  | .predicate he, _ => he.solid hg
  | .rule he, _ => he.solid hg
termination_by structural h => h

theorem Shows.solid (hg : g.Readable) {c : NodeId} {e : Expr} : g.Shows c e → e.Solid
  | .named _ => trivial
  | .unnamed _ he => he.solid hg
termination_by structural h => h

theorem ShowsAll.solid (hg : g.Readable) {cs : List NodeId} {es : List Expr} : g.ShowsAll cs es → Expr.SolidAll es
  | .nil => trivial
  | .cons he hes => ⟨he.solid hg, hes.solid hg⟩
termination_by structural h => h

end

mutual

theorem Expands.legible (hg : g.Readable) {id : NodeId} {e : Expr} : g.Expands id e → e.Legible
  | .missing _ => trivial
  | .node hnode he => he.legible hg (hg.node hnode).legible
termination_by structural h => h

theorem Spells.legible (hg : g.Readable) {pattern : Pattern} {e : Expr} :
    g.Spells pattern e → (∀ cls, pattern = .charClass cls → cls.Legible) → e.Legible
  | .literal _, _ => trivial
  | .charClass cls, h => h cls rfl
  | .sequence hes, _ => hes.legible hg
  | .choice hes, _ => hes.legible hg
  | .repetition he, _ => he.legible hg
  | .predicate he, _ => he.legible hg
  | .rule he, _ => he.legible hg
termination_by structural h => h

theorem Shows.legible (hg : g.Readable) {c : NodeId} {e : Expr} : g.Shows c e → e.Legible
  | .named h => by
    obtain ⟨node, hnode, hname⟩ := Option.bind_eq_some_iff.1 h
    exact (hg.node hnode).isName _ hname
  | .unnamed _ he => he.legible hg
termination_by structural h => h

theorem ShowsAll.legible (hg : g.Readable) {cs : List NodeId} {es : List Expr} :
    g.ShowsAll cs es → Expr.LegibleAll es
  | .nil => trivial
  | .cons he hes => ⟨he.legible hg, hes.legible hg⟩
termination_by structural h => h

end

/-- Every node has an expression, and its definition can be read. What is read is the expression, up to nested
sequences and to sequences and choices of one, if and only if the expression is well bracketed. -/
theorem Built.reads_back_iff (hg : g.Built) (hreadable : g.Readable) (id : NodeId) :
    (∃ e, g.Expands id e) ∧ ∀ e, g.Expands id e → ∃ r, Reading.ofText? (g.definition id) = some r ∧
      (r.normal = e.reading.normal ↔ e.wellBracketed) := by
  have hwf := hg.wellFormed
  obtain ⟨e, he⟩ := Option.isSome_iff_exists.1 (expression?_isSome hwf hreadable.noUnnamedCycle id)
  refine ⟨⟨e, expands_of_expand? _ he⟩, ?_⟩
  intro e he
  have hsolid := he.solid hreadable
  have hread := Reading.ofText?_render hsolid (he.legible hreadable)
  rw [← he.definition_eq hwf hreadable.noUnnamedCycle] at hread
  exact ⟨_, hread, Expr.readsBack_iff hsolid⟩

theorem readable_of_mem (hcycle : g.NoUnnamedCycle) (h : ∀ node ∈ g.nodes, node.Readable) : g.Readable :=
  ⟨hcycle, fun hnode => h _ (Array.mem_of_getElem? hnode)⟩

/-- `Nested <- "(" Nested ")" / !"-" [0-9]+` -/
def nested : Grammar := ⟨#[{ pattern := .literal "(" }, { pattern := .literal ")" },
  { pattern := .rule 9, name? := some "Nested" }, { pattern := .sequence [0, 2, 1] }, { pattern := .literal "-" },
  { pattern := .predicate 4 false }, { pattern := .charClass .digit }, { pattern := .repetition 6 1 none },
  { pattern := .sequence [5, 7] }, { pattern := .choice [3, 8] }]⟩

theorem nested_built : nested.Built :=
  ⟨[.add (.literal "("), .add (.literal ")"), .reserve "Nested" false, .add (.sequence [0, 2, 1]), .add (.literal "-"),
    .add (.predicate 4 false), .add (.charClass .digit), .add (.repetition 6 1 none), .add (.sequence [5, 7]),
    .add (.choice [3, 8]), .define 2 9], rfl⟩

theorem nested_readable : nested.Readable := by
  have hname : Mode.IsName "Nested" := Mode.isName_of_identifier (by decide) (by simp)
  apply readable_of_mem (noUnnamedCycle_of_lt (by decide))
  intro node hmem
  simp only [nested, List.mem_toArray, List.mem_cons, List.not_mem_nil, or_false] at hmem
  rcases hmem with rfl | rfl | rfl | rfl | rfl | rfl | rfl | rfl | rfl | rfl
  all_goals exact ⟨by simp, by simp [hname], by simp [CharClass.Legible]⟩

/-- The rule is read back from its definition. -/
theorem nested_reads_back : ∃ e r, nested.Expands 2 e ∧ Reading.ofText? (nested.definition 2) = some r ∧
    r.normal = e.reading.normal := by
  have hexpands : nested.Expands 2 (.choice [.sequence [.literal "(", .rule "Nested", .literal ")"],
      .sequence [.predicate (.literal "-") false, .repetition (.charClass .digit) 1 none]]) :=
    expands_of_expand? 5 rfl
  obtain ⟨r, hread, hiff⟩ := (Built.reads_back_iff nested_built nested_readable 2).2 _ hexpands
  exact ⟨_, r, hexpands, hread, hiff.2 rfl⟩

example : nested.definition 2 = "(\"(\" Nested \")\") / (!\"-\" ([0-9])+)" := by decide

def alternation : Grammar := ⟨#[{ pattern := .literal "a" }, { pattern := .literal "b" }, { pattern := .literal "c" },
  { pattern := .choice [1, 2] }, { pattern := .sequence [0, 3] }]⟩

theorem alternation_readable : alternation.Readable := by
  apply readable_of_mem (noUnnamedCycle_of_lt (by decide))
  intro node hmem
  simp only [alternation, List.mem_toArray, List.mem_cons, List.not_mem_nil, or_false] at hmem
  rcases hmem with rfl | rfl | rfl | rfl | rfl
  all_goals exact ⟨by simp, by simp, by simp⟩

/-- The sequence is defined as `"a" ("b") / ("c")`, which is read as a choice between `"a" "b"` and `"c"`. -/
theorem alternation_misread : alternation.Built ∧ alternation.Readable ∧
    ∃ e r, alternation.Expands 4 e ∧ Reading.ofText? (alternation.definition 4) = some r ∧
      e.reading.normal = .sequence [.literal "a", .choice [.literal "b", .literal "c"]] ∧
      r.normal = .choice [.sequence [.literal "a", .literal "b"], .literal "c"] := by
  refine ⟨⟨[.add (.literal "a"), .add (.literal "b"), .add (.literal "c"), .add (.choice [1, 2]),
    .add (.sequence [0, 3])], rfl⟩, alternation_readable, ?_⟩
  have hexpands : alternation.Expands 4 (.sequence [.literal "a", .choice [.literal "b", .literal "c"]]) :=
    expands_of_expand? 3 rfl
  exact ⟨_, _, hexpands, rfl, rfl, rfl⟩

end Grammar

end Packrat
