import Packrat.Proofs.Carrying

/-!
# Trees are derivations

The tree of a success is a derivation of its node: the children of each match in it are derivations of the
components of its node, as the form of the node has it. Left recursion does not stand in the way, not even
where it goes through several rules. A seed and all that it has grown to are trees of their own, and only
finished trees are put into others.
-/

namespace Packrat

open Session

namespace Grammar

/-- The match is a derivation of the node. In each case it has the name, the alias flag and the kind of the
node. A body that is hidden leaves its children to the rule, along with its span and text. -/
inductive Conforms (g : Grammar) : NodeId → Match → Prop
  | literal {id : NodeId} {node : Node} {m : Match} {text : String} (hnode : g.node? id = some node)
      (hpattern : node.pattern = .literal text) (horigin : m.origin? = some node.origin)
      (hchildren : m.children = []) (htext : m.text = text) : Conforms g id m
  | charClass {id : NodeId} {node : Node} {m : Match} {cls : CharClass} {c : Char}
      (hnode : g.node? id = some node) (hpattern : node.pattern = .charClass cls)
      (horigin : m.origin? = some node.origin) (hchildren : m.children = [])
      (haccepts : cls.accepts c = true) (htext : m.text = String.singleton c) : Conforms g id m
  | sequence {id : NodeId} {node : Node} {m : Match} {items : List NodeId} (hnode : g.node? id = some node)
      (hpattern : node.pattern = .sequence items) (horigin : m.origin? = some node.origin)
      (hchildren : List.Forall₂ (Conforms g) items m.children) : Conforms g id m
  | choice {id : NodeId} {node : Node} {m : Match} {alternatives : List NodeId} {alternative : NodeId}
      {child : Match} (hnode : g.node? id = some node) (hpattern : node.pattern = .choice alternatives)
      (horigin : m.origin? = some node.origin) (halternative : alternative ∈ alternatives)
      (hchildren : m.children = [child]) (hchild : Conforms g alternative child) : Conforms g id m
  | repetition {id : NodeId} {node : Node} {m : Match} {body : NodeId} {min : Nat} {max? : Option Nat}
      (hnode : g.node? id = some node) (hpattern : node.pattern = .repetition body min max?)
      (horigin : m.origin? = some node.origin) (hrounds : Match.Repeat min max? m.children)
      (hchildren : ∀ child ∈ m.children, Conforms g body child) : Conforms g id m
  | predicate {id : NodeId} {node : Node} {m : Match} {body : NodeId} {expected : Bool}
      (hnode : g.node? id = some node) (hpattern : node.pattern = .predicate body expected)
      (horigin : m.origin? = some node.origin) (hchildren : m.children = []) (hempty : m.stop = m.start) :
      Conforms g id m
  | hiddenBody {id : NodeId} {node : Node} {m : Match} {body : NodeId} {inner : Match}
      (hnode : g.node? id = some node) (hpattern : node.pattern = .rule body)
      (horigin : m.origin? = some node.origin) (hhidden : g.Hidden body) (hinner : Conforms g body inner)
      (hchildren : m.children = inner.children) (hspan : m.start = inner.start ∧ m.stop = inner.stop)
      (htext : m.text = inner.text) : Conforms g id m
  | visibleBody {id : NodeId} {node : Node} {m : Match} {body : NodeId} {child : Match}
      (hnode : g.node? id = some node) (hpattern : node.pattern = .rule body)
      (horigin : m.origin? = some node.origin) (hvisible : g.isVisible body = true)
      (hchildren : m.children = [child]) (hchild : Conforms g body child) : Conforms g id m

variable {g : Grammar} {id : NodeId} {node : Node} {s t : Session} {m : Match}

theorem Conforms.exists_node (h : g.Conforms id m) : ∃ node, g.node? id = some node ∧ m.hidden = node.hidden := by
  have horigin : ∃ node, g.node? id = some node ∧ m.origin? = some node.origin := by
    cases h with
    | literal hnode _ horigin => exact ⟨_, hnode, horigin⟩
    | charClass hnode _ horigin => exact ⟨_, hnode, horigin⟩
    | sequence hnode _ horigin => exact ⟨_, hnode, horigin⟩
    | choice hnode _ horigin => exact ⟨_, hnode, horigin⟩
    | repetition hnode _ horigin => exact ⟨_, hnode, horigin⟩
    | predicate hnode _ horigin => exact ⟨_, hnode, horigin⟩
    | hiddenBody hnode _ horigin => exact ⟨_, hnode, horigin⟩
    | visibleBody hnode _ horigin => exact ⟨_, hnode, horigin⟩
  obtain ⟨node, hnode, horigin⟩ := horigin
  refine ⟨node, hnode, ?_⟩
  rw [Match.hidden, horigin]
  rfl

theorem Conforms.withStatus (h : g.Conforms id m) (status : Status) : g.Conforms id (m.withStatus status) := by
  cases h with
  | literal hnode hpattern horigin hchildren htext =>
    exact .literal hnode hpattern horigin hchildren htext
  | charClass hnode hpattern horigin hchildren haccepts htext =>
    exact .charClass hnode hpattern horigin hchildren haccepts htext
  | sequence hnode hpattern horigin hchildren => exact .sequence hnode hpattern horigin hchildren
  | choice hnode hpattern horigin halternative hchildren hchild =>
    exact .choice hnode hpattern horigin halternative hchildren hchild
  | repetition hnode hpattern horigin hrounds hchildren =>
    exact .repetition hnode hpattern horigin hrounds hchildren
  | predicate hnode hpattern horigin hchildren hempty =>
    exact .predicate hnode hpattern horigin hchildren hempty
  | hiddenBody hnode hpattern horigin hhidden hinner hchildren hspan htext =>
    exact .hiddenBody hnode hpattern horigin hhidden hinner hchildren hspan htext
  | visibleBody hnode hpattern horigin hvisible hchildren hchild =>
    exact .visibleBody hnode hpattern horigin hvisible hchildren hchild

/-- A match that fits the pattern of a node, with derivations below it, is a derivation of the node. -/
theorem conforms_of_fits (hnode : g.node? id = some node) (h : node.pattern.Fits g.Conforms m) :
    g.Conforms id (m.stamp node.origin) := by
  cases hpattern : node.pattern with
  | literal text =>
    obtain ⟨hchildren, htext⟩ := hpattern ▸ h
    exact .literal hnode hpattern rfl hchildren htext
  | charClass cls =>
    obtain ⟨hchildren, c, haccepts, htext⟩ := hpattern ▸ h
    exact .charClass hnode hpattern rfl hchildren haccepts htext
  | sequence items =>
    rw [hpattern] at h
    exact .sequence hnode hpattern rfl h
  | choice alternatives =>
    obtain ⟨alternative, hmem, child, hchild, hchildren⟩ := hpattern ▸ h
    exact .choice hnode hpattern rfl hmem hchildren hchild
  | repetition body min max? =>
    obtain ⟨hall, hrounds⟩ := hpattern ▸ h
    exact .repetition hnode hpattern rfl hrounds hall
  | predicate body expected =>
    obtain ⟨hchildren, hempty⟩ := hpattern ▸ h
    exact .predicate hnode hpattern rfl hchildren hempty
  | rule body =>
    rw [hpattern] at h
    rcases h with ⟨child, hchild, hshown, hchildren⟩ | ⟨hinner, hhidden⟩
    · obtain ⟨node', hnode', heq⟩ := hchild.exists_node
      exact .visibleBody hnode hpattern rfl ((isVisible_iff hnode').2 (heq ▸ hshown)) hchildren hchild
    · obtain ⟨node', hnode', heq⟩ := hinner.exists_node
      exact .hiddenBody hnode hpattern rfl ⟨node', hnode', heq ▸ hhidden⟩ hinner rfl ⟨rfl, rfl⟩ rfl

end Grammar

def Session.Conforming (g : Grammar) (s : Session) : Prop :=
  ∀ q r e, s.memo.get? q r = some e → e.success = true → g.Conforms r e

namespace Grammar

variable {g : Grammar} {id : NodeId} {s t : Session} {m : Match}

theorem carried_conforms (g : Grammar) : Carried g (Session.Conforming g) g.Conforms where
  seek _ h := h
  emit kind label start stop h := by
    intro q r e he
    rw [memo_emit] at he
    exact h q r e he
  noteFailure _ h := h
  restoreFailure _ h _ := h
  remember position h hm := by
    intro q r e he hsuccess
    rw [memo_remember, MemoTable.get?_insert] at he
    split at he
    · rename_i hentry
      obtain ⟨_, _, rfl⟩ := hentry
      obtain rfl := Option.some.inj he
      exact hm hsuccess
    · exact h q r e he hsuccess
  remembered h he hsuccess := h _ _ _ he hsuccess
  withStatus status h := h.withStatus status
  stamp hnode h := conforms_of_fits hnode h

theorem Reached.conforming (hg : g.WellFormed) (hs : g.Reached s) : s.Conforming g := by
  refine hs.carried hg (carried_conforms g) ?_ ?_
  · intro input options q r e he
    simp [Session.start] at he
  · intro s id h q r e he
    exact h q r e (get?_of_forget he)

/-- Every success is a derivation of the node that has been matched, whatever recursion the grammar has, in a
session that has just been started as in any other one. -/
theorem Reached.match_conforms (hg : g.Built) (hs : g.Reached s) (h : g.Matches id s m t)
    (hsuccess : m.success = true) : g.Conforms id m := by
  obtain ⟨depth, h⟩ := h
  exact (run_carries hg.wellFormed (carried_conforms g) depth .none id s m t (hs.sound hg.wellFormed)
    (hs.conforming hg.wellFormed) h).2 hsuccess

/-- The tree of `1+2`, in which one sum is grown from another, is a derivation. -/
theorem sum_match_conforms : ∃ m t,
    Reference.expression.build.grammar.Matches 3 (Session.start "1+2" {}) m t ∧ m.success = true ∧ m.stop = 3 ∧
      Reference.expression.build.grammar.Conforms 3 m := by
  obtain ⟨m, t, h, hsuccess, hstop⟩ := exists_matches (by decide +kernel :
    (Reference.expression.build.grammar.matchAt 3 (Session.start "1+2" {})).Yields False False
      fun a => a.1.success = true ∧ a.1.stop = 3)
  exact ⟨m, t, h, hsuccess, hstop, Reached.match_conforms Reference.expression.built (.start "1+2" {}) h hsuccess⟩

end Grammar

end Packrat
