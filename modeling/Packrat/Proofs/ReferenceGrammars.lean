import Packrat.Proofs.LeftEdges
import Packrat.Grammar.Reference

/-!
# The reference grammars are well behaved

All three of them come out of a builder, have no cycle of hidden nodes, and are left-recursive at most
in one rule by itself.
-/

namespace Packrat

namespace Reference

def calls : Reference → List Builder.Call
  | .number => numberCalls
  | .expression => sumCalls 2
  | .rightExpression => sumCalls 3
where
  numberCalls : List Builder.Call :=
    [.add (.charClass .digit), .add (.repetition 0 1 none), .declare "Number" false 1]
  sumCalls (right : NodeId) : List Builder.Call :=
    numberCalls ++ [.reserve "Expression" false, .add (.literal "+"), .add (.sequence [3, 4, right]),
      .add (.choice [5, 2]), .define 3 6]

theorem built (r : Reference) : r.build.grammar.Built := by
  refine ⟨r.calls, ?_⟩
  cases r
  · rfl
  · rfl
  · rfl

/-- Hidden nodes refer to nodes before them. -/
theorem noHiddenCycle (r : Reference) : r.build.grammar.NoHiddenCycle := by
  refine Grammar.noHiddenCycle_of_rank id fun n c h => ?_
  obtain ⟨hedge, hhidden, hchidden⟩ := h
  obtain ⟨node, hnode, _⟩ := hedge.exists_node
  have hn := Grammar.lt_size_of_node? hnode
  have hv := Grammar.not_visible_of_hidden hhidden
  have hcv := Grammar.not_visible_of_hidden hchidden
  have hcheck : ∀ n < r.build.grammar.size, ∀ c ∈ r.build.grammar.leftmost n,
      r.build.grammar.isVisible n ≠ true → r.build.grammar.isVisible c ≠ true → c < n := by
    cases r <;> decide
  exact hcheck n hn c hedge hv hcv

/-- Sums lead to numbers, and numbers do not lead back. -/
theorem directOnly (r : Reference) : r.build.grammar.DirectOnly := by
  refine Grammar.directOnly_of_rank (fun n => if n < 3 then 0 else 1) ?_ ?_
  · intro n c hedge
    obtain ⟨node, hnode, _⟩ := hedge.exists_node
    have hcheck : ∀ n < r.build.grammar.size, ∀ c ∈ r.build.grammar.leftmost n,
        (if c < 3 then 0 else 1) ≤ (if n < 3 then 0 else 1) := by
      cases r <;> decide
    exact hcheck n (Grammar.lt_size_of_node? hnode) c hedge
  · intro n n' hn hn' hrank
    obtain ⟨node, hnode⟩ := Grammar.exists_node_of_visible hn
    obtain ⟨node', hnode'⟩ := Grammar.exists_node_of_visible hn'
    have hcheck : ∀ n < r.build.grammar.size, ∀ n' < r.build.grammar.size,
        r.build.grammar.isVisible n = true → r.build.grammar.isVisible n' = true →
          (if n < 3 then 0 else 1) = (if n' < 3 then 0 else 1) → n = n' := by
      cases r <;> decide
    exact hcheck n (Grammar.lt_size_of_node? hnode) n' (Grammar.lt_size_of_node? hnode') hn hn' hrank

end Reference

end Packrat
