import Packrat.Grammar.Definition
import Packrat.Proofs.LeftEdges

/-!
# Expansions

The expression of a node has the names of its named components, and the expressions of the others. There is only one,
and there is one if every cycle of components passes through a named node: below each component that is written out
there are fewer unnamed nodes than below the node itself.
-/

namespace Packrat

namespace Grammar

mutual

inductive Expands (g : Grammar) : NodeId → Expr → Prop
  | missing {id : NodeId} (h : g.node? id = none) : Expands g id (.missing id)
  | node {id : NodeId} {node : Node} {e : Expr} (hnode : g.node? id = some node) (he : Spells g node.pattern e) :
      Expands g id e

inductive Spells (g : Grammar) : Pattern → Expr → Prop
  | literal (text : String) : Spells g (.literal text) (.literal text)
  | charClass (cls : CharClass) : Spells g (.charClass cls) (.charClass cls)
  | sequence {items : List NodeId} {es : List Expr} (hes : ShowsAll g items es) :
      Spells g (.sequence items) (.sequence es)
  | choice {alternatives : List NodeId} {es : List Expr} (hes : ShowsAll g alternatives es) :
      Spells g (.choice alternatives) (.choice es)
  | repetition {body : NodeId} {min : Nat} {max? : Option Nat} {e : Expr} (he : Shows g body e) :
      Spells g (.repetition body min max?) (.repetition e min max?)
  | predicate {body : NodeId} {expected : Bool} {e : Expr} (he : Shows g body e) :
      Spells g (.predicate body expected) (.predicate e expected)
  | rule {body : NodeId} {e : Expr} (he : Shows g body e) : Spells g (.rule body) e

/-- `e` is what the component is shown as: its name if it has one, else its expression. -/
inductive Shows (g : Grammar) : NodeId → Expr → Prop
  | named {c : NodeId} {name : String} (h : (g.node? c).bind Node.name? = some name) : Shows g c (.rule name)
  | unnamed {c : NodeId} {e : Expr} (h : (g.node? c).bind Node.name? = none) (he : Expands g c e) : Shows g c e

inductive ShowsAll (g : Grammar) : List NodeId → List Expr → Prop
  | nil : ShowsAll g [] []
  | cons {c : NodeId} {cs : List NodeId} {e : Expr} {es : List Expr} (he : Shows g c e) (hes : ShowsAll g cs es) :
      ShowsAll g (c :: cs) (e :: es)

end

variable {g : Grammar} {expand : NodeId → Option Expr} {depth : Nat} {id c : NodeId} {cs : List NodeId} {e : Expr}
  {es : List Expr}

/-! ## There is at most one expression -/

mutual

theorem Expands.unique {id : NodeId} {e e' : Expr} : g.Expands id e → g.Expands id e' → e = e'
  | .missing _, .missing _ => rfl
  | .missing h, .node hnode _ => by simp [h] at hnode
  | .node hnode _, .missing h => by simp [h] at hnode
  | .node hnode he, .node hnode' he' => by
    rw [hnode] at hnode'
    obtain rfl := Option.some.inj hnode'
    exact he.unique he'
termination_by structural h => h

theorem Spells.unique {pattern : Pattern} {e e' : Expr} : g.Spells pattern e → g.Spells pattern e' → e = e'
  | .literal _, .literal _ => rfl
  | .charClass _, .charClass _ => rfl
  | .sequence hes, .sequence hes' => congrArg Expr.sequence (hes.unique hes')
  | .choice hes, .choice hes' => congrArg Expr.choice (hes.unique hes')
  | .repetition he, .repetition he' => by rw [he.unique he']
  | .predicate he, .predicate he' => by rw [he.unique he']
  | .rule he, .rule he' => he.unique he'
termination_by structural h => h

theorem Shows.unique {c : NodeId} {e e' : Expr} : g.Shows c e → g.Shows c e' → e = e'
  | .named h, .named h' => by
    rw [h] at h'
    rw [Option.some.inj h']
  | .named h, .unnamed h' _ => by simp [h] at h'
  | .unnamed h _, .named h' => by simp [h] at h'
  | .unnamed _ he, .unnamed _ he' => he.unique he'
termination_by structural h => h

theorem ShowsAll.unique {cs : List NodeId} {es es' : List Expr} : g.ShowsAll cs es → g.ShowsAll cs es' → es = es'
  | .nil, .nil => rfl
  | .cons he hes, .cons he' hes' => by rw [he.unique he', hes.unique hes']
termination_by structural h => h

end

/-! ## What a node is expanded into -/

theorem shows_of_component? (hexpand : ∀ id e, expand id = some e → g.Expands id e)
    (h : g.component? expand c = some e) : g.Shows c e := by
  unfold component? at h
  split at h
  · rename_i name hname
    obtain rfl := Option.some.inj h
    exact .named hname
  · rename_i hname
    exact .unnamed hname (hexpand c e h)

theorem showsAll_of_components? (hexpand : ∀ id e, expand id = some e → g.Expands id e)
    (h : g.components? expand cs = some es) : g.ShowsAll cs es := by
  induction cs generalizing es with
  | nil =>
    obtain rfl := Option.some.inj h
    exact .nil
  | cons c cs ih =>
    unfold components? at h
    split at h
    · rename_i e rest he hrest
      obtain rfl := Option.some.inj h
      exact .cons (shows_of_component? hexpand he) (ih hrest)
    · cases h

theorem spells_of_spell? {pattern : Pattern} (hexpand : ∀ id e, expand id = some e → g.Expands id e)
    (h : g.spell? expand pattern = some e) : g.Spells pattern e := by
  cases pattern with
  | literal text =>
    obtain rfl := Option.some.inj h
    exact .literal text
  | charClass cls =>
    obtain rfl := Option.some.inj h
    exact .charClass cls
  | sequence items =>
    obtain ⟨es, hes, rfl⟩ := Option.map_eq_some_iff.1 h
    exact .sequence (showsAll_of_components? hexpand hes)
  | choice alternatives =>
    obtain ⟨es, hes, rfl⟩ := Option.map_eq_some_iff.1 h
    exact .choice (showsAll_of_components? hexpand hes)
  | repetition body min max? =>
    obtain ⟨e, he, rfl⟩ := Option.map_eq_some_iff.1 h
    exact .repetition (shows_of_component? hexpand he)
  | predicate body expected =>
    obtain ⟨e, he, rfl⟩ := Option.map_eq_some_iff.1 h
    exact .predicate (shows_of_component? hexpand he)
  | rule body => exact .rule (shows_of_component? hexpand h)

theorem expands_of_expand? (depth : Nat) (h : g.expand? depth id = some e) : g.Expands id e := by
  induction depth generalizing id e with
  | zero => cases h
  | succ depth ih =>
    unfold expand? at h
    split at h
    · rename_i hnode
      obtain rfl := Option.some.inj h
      exact .missing hnode
    · rename_i node hnode
      exact .node hnode (spells_of_spell? (fun _ _ h => ih h) h)

/-! ## The depth of an expression -/

def Unnamed (g : Grammar) (id : NodeId) : Prop := (g.node? id).bind Node.name? = none

def UnnamedEdge (g : Grammar) (id c : NodeId) : Prop :=
  (∃ node, g.node? id = some node ∧ c ∈ node.pattern.components) ∧ g.Unnamed id ∧ g.Unnamed c

/-- Every cycle of components passes through a named node. -/
def NoUnnamedCycle (g : Grammar) : Prop := ∀ id, ¬ Relation.TransGen g.UnnamedEdge id id

/-- Where unnamed components of unnamed nodes stand before them, every cycle passes through a named node. -/
theorem noUnnamedCycle_of_lt (h : ∀ id < g.size, ∀ node ∈ g.node? id, node.name? = none →
    ∀ c ∈ node.pattern.components, (g.node? c).bind Node.name? = none → c < id) : g.NoUnnamedCycle := by
  refine not_cycle_of_rank id ?_
  rintro x c ⟨⟨node, hnode, hc⟩, hx, hname⟩
  have hx : node.name? = none := by simpa [Unnamed, hnode] using hx
  exact h x (lt_size_of_node? hnode) node hnode hx c hc hname

/-- The expression of `c` is written inside that of `id`: `c` is a component without a name. -/
def WritesOut (g : Grammar) (id c : NodeId) : Prop :=
  (∃ node, g.node? id = some node ∧ c ∈ node.pattern.components) ∧ g.Unnamed c

/-- From a node without a name, what is written out is reached along unnamed edges. -/
theorem unnamedEdge_of_writesOut (hid : g.Unnamed id) (h : Relation.TransGen g.WritesOut id c) :
    g.Unnamed c ∧ Relation.TransGen g.UnnamedEdge id c := by
  induction h with
  | single h => exact ⟨h.2, .single ⟨h.1, hid, h.2⟩⟩
  | tail _ h ih => exact ⟨h.2, .tail ih.2 ⟨h.1, ih.1, h.2⟩⟩

/-- Where every cycle passes through a named node, no node is written inside of itself. -/
theorem NoUnnamedCycle.not_writesOut (hcycle : g.NoUnnamedCycle) (id : NodeId) :
    ¬ Relation.TransGen g.WritesOut id id := by
  intro h
  obtain ⟨_, _, hlast⟩ := Relation.TransGen.tail'_iff.1 h
  exact hcycle id (unnamedEdge_of_writesOut hlast.2 h).2

open Classical in
/-- The number of unnamed nodes that are written inside of a node, at whatever depth. -/
noncomputable def unnamedBelow (g : Grammar) (id : NodeId) : Nat :=
  ((Finset.range g.size).filter (Relation.TransGen g.WritesOut id)).card

open Classical in
theorem unnamedBelow_le (g : Grammar) (id : NodeId) : g.unnamedBelow id ≤ g.size := by
  have h := Finset.card_filter_le (Finset.range g.size) (Relation.TransGen g.WritesOut id)
  rwa [Finset.card_range] at h

/-- Where every cycle passes through a named node, fewer and fewer unnamed nodes are below. -/
theorem unnamedBelow_lt (hcycle : g.NoUnnamedCycle) (hc : c < g.size) (h : g.WritesOut id c) :
    g.unnamedBelow c < g.unnamedBelow id :=
  card_below_lt hc (hcycle.not_writesOut c) h

theorem component?_isSome (h : g.Unnamed c → (expand c).isSome) : (g.component? expand c).isSome := by
  unfold component?
  split
  · rfl
  · rename_i hname
    exact h hname

theorem components?_isSome (h : ∀ c ∈ cs, g.Unnamed c → (expand c).isSome) : (g.components? expand cs).isSome := by
  induction cs with
  | nil => rfl
  | cons c cs ih =>
    rw [List.forall_mem_cons] at h
    obtain ⟨e, he⟩ := Option.isSome_iff_exists.1 (component?_isSome h.1)
    obtain ⟨es, hes⟩ := Option.isSome_iff_exists.1 (ih h.2)
    simp [components?, he, hes]

theorem spell?_isSome {pattern : Pattern} (h : ∀ c ∈ pattern.components, g.Unnamed c → (expand c).isSome) :
    (g.spell? expand pattern).isSome := by
  cases pattern with
  | literal text => rfl
  | charClass cls => rfl
  | sequence items =>
    rw [spell?, Option.isSome_map]
    exact components?_isSome h
  | choice alternatives =>
    rw [spell?, Option.isSome_map]
    exact components?_isSome h
  | repetition body min max? =>
    rw [spell?, Option.isSome_map]
    exact component?_isSome (h body List.mem_cons_self)
  | predicate body expected =>
    rw [spell?, Option.isSome_map]
    exact component?_isSome (h body List.mem_cons_self)
  | rule body => exact component?_isSome (h body List.mem_cons_self)

/-- A node can be expanded at a depth above the number of unnamed nodes below it. -/
theorem expand?_isSome (hg : g.WellFormed) (hcycle : g.NoUnnamedCycle) (hdepth : g.unnamedBelow id < depth) :
    (g.expand? depth id).isSome := by
  induction depth generalizing id with
  | zero => omega
  | succ depth ih =>
    unfold expand?
    split
    · rfl
    · rename_i node hnode
      refine spell?_isSome fun c hc hname => ih ?_
      have hbelow := unnamedBelow_lt hcycle (hg.component_lt hnode hc) ⟨⟨node, hnode, hc⟩, hname⟩
      omega

theorem expression?_isSome (hg : g.WellFormed) (hcycle : g.NoUnnamedCycle) (id : NodeId) :
    (g.expression? id).isSome :=
  expand?_isSome hg hcycle (Nat.lt_succ_of_le (g.unnamedBelow_le id))

theorem Expands.definition_eq (hg : g.WellFormed) (hcycle : g.NoUnnamedCycle) (h : g.Expands id e) :
    g.definition id = e.render := by
  obtain ⟨e', he'⟩ := Option.isSome_iff_exists.1 (expression?_isSome hg hcycle id)
  have heq : e' = e := (expands_of_expand? _ he').unique h
  rw [definition, he', heq]

end Grammar

end Packrat
