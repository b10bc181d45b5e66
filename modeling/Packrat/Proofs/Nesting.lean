import Packrat.Proofs.Expansions
import Packrat.Proofs.ReferenceGrammars

/-!
# Nested expansions

Where every cycle of components passes through a named node, the expansion of a node ends: it goes no deeper than
there are unnamed nodes below. No node is expanded inside of its own expansion, so that it would do no harm to give
up where a node is met again.
-/

namespace Packrat

namespace Grammar

variable {g : Grammar} {expand expand' : NodeId → Option Expr} {depth : Nat} {id c : NodeId} {cs path : List NodeId}

/-- The expansion of a node inside of the expansions of the nodes in `path`. It is given up where a node is met
inside of its own expansion. -/
def expandApart? (g : Grammar) : (depth : Nat) → (path : List NodeId) → NodeId → Option Expr
  | 0, _, _ => none
  | depth + 1, path, id =>
    if id ∈ path then none
    else
      match g.node? id with
      | none => some (.missing id)
      | some node => g.spell? (g.expandApart? depth (id :: path)) node.pattern

/-! ## The expression of a pattern depends on its unnamed components only -/

theorem component?_congr (h : g.Unnamed c → expand c = expand' c) :
    g.component? expand c = g.component? expand' c := by
  unfold component?
  split
  · rfl
  · rename_i hname
    exact h hname

theorem components?_congr (h : ∀ c ∈ cs, g.Unnamed c → expand c = expand' c) :
    g.components? expand cs = g.components? expand' cs := by
  induction cs with
  | nil => rfl
  | cons c cs ih =>
    obtain ⟨hc, hcs⟩ := List.forall_mem_cons.1 h
    rw [components?, components?, component?_congr hc, ih hcs]

theorem spell?_congr {pattern : Pattern} (h : ∀ c ∈ pattern.components, g.Unnamed c → expand c = expand' c) :
    g.spell? expand pattern = g.spell? expand' pattern := by
  cases pattern with
  | literal text => rfl
  | charClass cls => rfl
  | sequence items => exact congrArg (Option.map Expr.sequence) (components?_congr h)
  | choice alternatives => exact congrArg (Option.map Expr.choice) (components?_congr h)
  | repetition body min max? => exact congrArg (Option.map _) (component?_congr (h body List.mem_cons_self))
  | predicate body expected => exact congrArg (Option.map _) (component?_congr (h body List.mem_cons_self))
  | rule body => exact component?_congr (h body List.mem_cons_self)

/-- As long as all nodes on the path write out the node, the node is not one of them, and so it goes on: no
expansion is given up. -/
theorem expandApart?_eq (hcycle : g.NoUnnamedCycle) (hpath : ∀ p ∈ path, Relation.TransGen g.WritesOut p id) :
    g.expandApart? depth path id = g.expand? depth id := by
  induction depth generalizing path id with
  | zero => rfl
  | succ depth ih =>
    have hnew : id ∉ path := fun hmem => hcycle.not_writesOut id (hpath id hmem)
    rw [expandApart?, expand?, if_neg hnew]
    cases hnode : g.node? id with
    | none => rfl
    | some node =>
      refine spell?_congr fun c hc hname => ih fun p hp => ?_
      have hwrites : g.WritesOut id c := ⟨⟨node, hnode, hc⟩, hname⟩
      rcases List.mem_cons.1 hp with rfl | hp
      · exact .single hwrites
      · exact .tail (hpath p hp) hwrites

/-- Where every cycle of components passes through a named node, every node has an expression, which is its
definition as text. The expansion needs no greater depth than there are unnamed nodes below, of which there are
fewer below each component that it goes into; and no node is expanded inside of its own expansion. -/
theorem Built.definitions_end (hg : g.Built) (hcycle : g.NoUnnamedCycle) (id : NodeId) :
    (∀ c, g.WritesOut id c → g.unnamedBelow c < g.unnamedBelow id) ∧
    ∃ e, (∀ depth, g.unnamedBelow id < depth →
        g.expand? depth id = some e ∧ g.expandApart? depth [] id = some e) ∧
      g.definition id = e.render ∧
      g.describe id = (if g.isRule id then g.label id ++ " <- " else "") ++ e.render := by
  have hwf := hg.wellFormed
  refine ⟨fun c hwrites => ?_, ?_⟩
  · obtain ⟨node, hnode, hc⟩ := hwrites.1
    exact unnamedBelow_lt hcycle (hwf.component_lt hnode hc) hwrites
  · obtain ⟨e, he⟩ := Option.isSome_iff_exists.1 (expression?_isSome hwf hcycle id)
    have hdefinition := (expands_of_expand? _ he).definition_eq hwf hcycle
    refine ⟨e, fun depth hdepth => ?_, hdefinition, ?_⟩
    · obtain ⟨e', he'⟩ := Option.isSome_iff_exists.1 (expand?_isSome hwf hcycle hdepth)
      obtain rfl := (expands_of_expand? _ he').unique (expands_of_expand? _ he)
      exact ⟨he', (expandApart?_eq hcycle fun _ hp => absurd hp List.not_mem_nil).trans he'⟩
    · rw [describe, hdefinition]
      split <;> simp

/-- The rule of sums refers to itself, and has a description all the same. -/
theorem sum_definitions_end : ∃ e, Reference.expression.build.grammar.expandApart? 8 [] 3 = some e ∧
    e.render = "(Expression \"+\" Number) / (Number)" ∧
    Reference.expression.build.grammar.describe 3 = "Expression <- (Expression \"+\" Number) / (Number)" := by
  have hcycle : Reference.expression.build.grammar.NoUnnamedCycle := noUnnamedCycle_of_lt (by decide)
  obtain ⟨_, e, hends, _, hdescribe⟩ := Built.definitions_end Reference.expression.built hcycle 3
  obtain ⟨hexpand, hapart⟩ := hends 8 (Nat.lt_succ_of_le (unnamedBelow_le _ 3))
  obtain rfl : Expr.choice [.sequence [.rule "Expression", .literal "+", .rule "Number"], .rule "Number"] = e :=
    Option.some.inj hexpand
  exact ⟨_, hapart, by decide, hdescribe.trans (by decide)⟩

example : Reference.expression.build.grammar.describe 7 = "<#7>" := by decide

end Grammar

end Packrat
