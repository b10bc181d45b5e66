import Packrat.Proofs.LeftSearch
import Packrat.Proofs.ReferenceGrammars

/-!
# Left recursion

The search along leftmost edges decides left recursion: it always ends, and a node is found to be left-recursive if
and only if a path along leftmost edges leads from the node back to it. The recursion is direct if all nodes on the
way are hidden, since the search for it stops at visible rules. In what order the search takes the nodes from its
work has no influence on this.
-/

namespace Packrat

namespace Grammar

variable {g : Grammar} {direct : Bool} {id first c d : NodeId} {via : List NodeId}

/-! ## Paths -/

/-- A path along leftmost edges from `id` to `c`, by way of the nodes in `via`. It has at least one edge. -/
def LeftPath (g : Grammar) (id : NodeId) (via : List NodeId) (c : NodeId) : Prop :=
  List.IsChain g.LeftEdge (id :: (via ++ [c]))

@[simp] theorem leftPath_nil : g.LeftPath id [] c ↔ g.LeftEdge id c := by
  simp [LeftPath]

@[simp] theorem leftPath_cons :
    g.LeftPath id (first :: via) c ↔ g.LeftEdge id first ∧ g.LeftPath first via c := by
  simp [LeftPath]

theorem LeftPath.exists_node (h : g.LeftPath id via c) (hd : d ∈ via) : ∃ node, g.node? d = some node := by
  induction via generalizing id with
  | nil => nomatch hd
  | cons first via ih =>
    have hrest := (leftPath_cons.1 h).2
    rcases List.mem_cons.1 hd with rfl | hd
    · cases via with
      | nil => exact (leftPath_nil.1 hrest).exists_node.imp fun _ hnode => hnode.1
      | cons second via => exact (leftPath_cons.1 hrest).1.exists_node.imp fun _ hnode => hnode.1
    · exact ih hrest hd

theorem LeftPath.hidden_iff (h : g.LeftPath id via c) (hd : d ∈ via) : g.Hidden d ↔ g.isVisible d ≠ true := by
  obtain ⟨node, hnode⟩ := h.exists_node hd
  exact ⟨not_visible_of_hidden, hidden_of_not_visible (lt_size_of_node? hnode)⟩

/-- The search follows every edge of a path that begins at one of the nodes on the way. -/
theorem LeftPath.followed (h : g.LeftPath id via c) (hvia : ∀ d ∈ via, direct = true → g.isVisible d ≠ true) :
    ∃ first, g.LeftEdge id first ∧ Relation.ReflTransGen (g.FollowedEdge direct) first c := by
  induction via generalizing id with
  | nil => exact ⟨c, leftPath_nil.1 h, .refl⟩
  | cons first via ih =>
    obtain ⟨hedge, hrest⟩ := leftPath_cons.1 h
    obtain ⟨hfirst, hvia⟩ := List.forall_mem_cons.1 hvia
    obtain ⟨second, hsecond, hpath⟩ := ih hrest hvia
    exact ⟨first, hedge, .head ⟨hsecond, hfirst⟩ hpath⟩

theorem exists_leftPath (hedge : g.LeftEdge id first)
    (hpath : Relation.ReflTransGen (g.FollowedEdge direct) first c) :
    ∃ via, g.LeftPath id via c ∧ ∀ d ∈ via, direct = true → g.isVisible d ≠ true := by
  induction hpath using Relation.ReflTransGen.head_induction_on generalizing id with
  | refl => exact ⟨[], leftPath_nil.2 hedge, List.forall_mem_nil _⟩
  | head hnext _ ih =>
    obtain ⟨via, hrest, hvia⟩ := ih hnext.1
    exact ⟨_ :: via, leftPath_cons.2 ⟨hedge, hrest⟩, List.forall_mem_cons.2 ⟨hnext.2, hvia⟩⟩

/-! ## The search decides -/

theorem reachesItself_iff_leftPath : g.reachesItself direct id = true ↔
    ∃ via, g.LeftPath id via id ∧ ∀ d ∈ via, direct = true → g.isVisible d ≠ true := by
  rw [reachesItself_iff]
  constructor
  · rintro ⟨first, hedge, hpath⟩
    exact exists_leftPath hedge hpath
  · rintro ⟨via, hpath, hvia⟩
    exact hpath.followed hvia

/-- The search ends with an answer that no greater number of steps changes. A node is found to be left-recursive
if and only if there is a path along leftmost edges from the node to itself, and to be directly so if and only if
there is one on which all nodes on the way are hidden. -/
theorem search_decides_left_recursion (g : Grammar) (id : NodeId) :
    (∀ direct steps, (g.leftmost id).length + g.referenceCount ≤ steps →
      g.finds? direct id steps [] (g.leftmost id) = some (g.reachesItself direct id)) ∧
    (g.isLeftRecursive id = true ↔ ∃ via, g.LeftPath id via id) ∧
    (g.isDirectlyLeftRecursive id = true ↔ ∃ via, g.LeftPath id via id ∧ ∀ d ∈ via, g.Hidden d) := by
  refine ⟨fun direct steps hsteps => ?_, ?_, ?_⟩
  · obtain ⟨found, hfound, hiff⟩ := exists_finds? hsteps
    have heq : found = g.reachesItself direct id := Bool.eq_iff_iff.2 (hiff.trans reachesItself_iff.symm)
    rw [hfound, heq]
  · rw [isLeftRecursive, reachesItself_iff_leftPath]
    simp
  · rw [isDirectlyLeftRecursive, reachesItself_iff_leftPath]
    refine exists_congr fun via => and_congr_right fun hpath => forall₂_congr fun d hd => ?_
    rw [hpath.hidden_iff hd]
    simp

/-- The rule of sums is directly left-recursive by way of its choice and its sequence, and the rule of numbers is
not left-recursive. -/
theorem sum_search_decides_left_recursion :
    Reference.expression.build.grammar.finds? true 3 20 [] [6] = some true ∧
    Reference.expression.build.grammar.isDirectlyLeftRecursive 3 = true ∧
    ¬ ∃ via, Reference.expression.build.grammar.LeftPath 2 via 2 := by
  have hsum := search_decides_left_recursion Reference.expression.build.grammar 3
  have hpath : Reference.expression.build.grammar.LeftPath 3 [6, 5] 3 := by
    simp only [leftPath_cons, leftPath_nil, LeftEdge]
    decide
  have hhidden : ∀ d ∈ [6, 5], Reference.expression.build.grammar.Hidden d := by
    simp only [List.forall_mem_cons]
    exact ⟨⟨_, rfl, rfl⟩, ⟨_, rfl, rfl⟩, List.forall_mem_nil _⟩
  have hdirect := hsum.2.2.2 ⟨[6, 5], hpath, hhidden⟩
  refine ⟨?_, hdirect, fun hnumber => ?_⟩
  · exact (hsum.1 true 20 (by decide)).trans (congrArg some hdirect)
  · have hrecursive := (search_decides_left_recursion Reference.expression.build.grammar 2).2.1.2 hnumber
    exact absurd hrecursive (by decide)

end Grammar

end Packrat
