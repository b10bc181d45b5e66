import Packrat.Proofs.Built
import Packrat.Proofs.Nullability
import Packrat.Grammar.Leftmost
import Mathlib.Data.Finset.Card
import Mathlib.Logic.Relation

/-!
# Leftmost edges

The edges from a node to its leftmost components are those along which a call can be made before any
character has been taken. The conditions on a grammar under which matching ends, and under which the
memo table is without influence, are conditions on cycles of such edges.
-/

namespace Packrat

namespace Grammar

variable {g : Grammar} {id c : NodeId} {node : Node}

/-- `c` may be called by `id` before `id` has taken any character. -/
def LeftEdge (g : Grammar) (id c : NodeId) : Prop := c ∈ g.leftmost id

def Hidden (g : Grammar) (id : NodeId) : Prop := ∃ node, g.node? id = some node ∧ node.hidden = true

def HiddenEdge (g : Grammar) (id c : NodeId) : Prop := g.LeftEdge id c ∧ g.Hidden id ∧ g.Hidden c

/-- No cycle of leftmost edges consists of hidden nodes only. -/
def NoHiddenCycle (g : Grammar) : Prop := ∀ id, ¬ Relation.TransGen g.HiddenEdge id id

/-- Left recursion is only direct: no two different visible rules reach each other along leftmost
edges. -/
def DirectOnly (g : Grammar) : Prop :=
  ∀ r r', g.isVisible r = true → g.isVisible r' = true → Relation.TransGen g.LeftEdge r r' →
    Relation.TransGen g.LeftEdge r' r → r = r'

theorem isVisible_iff (hnode : g.node? id = some node) : g.isVisible id = true ↔ node.hidden = false := by
  simp [isVisible, hnode]

theorem lt_size_of_node? (hnode : g.node? id = some node) : id < g.size := by
  by_contra hge
  simp [node?_eq_none_iff.2 (Nat.le_of_not_lt hge)] at hnode

theorem exists_node (hid : id < g.size) : ∃ node, g.node? id = some node := by
  cases hnode : g.node? id with
  | none => exact absurd hid (Nat.not_lt.2 (node?_eq_none_iff.1 hnode))
  | some node => exact ⟨node, rfl⟩

theorem exists_node_of_visible (h : g.isVisible id = true) : ∃ node, g.node? id = some node := by
  cases hnode : g.node? id with
  | none => simp [isVisible, hnode] at h
  | some node => exact ⟨node, rfl⟩

theorem not_visible_iff (hnode : g.node? id = some node) : g.isVisible id ≠ true ↔ node.hidden = true := by
  simp [isVisible_iff hnode]

theorem hidden_of_not_visible (hid : id < g.size) (h : g.isVisible id ≠ true) : g.Hidden id := by
  obtain ⟨node, hnode⟩ := exists_node hid
  exact ⟨node, hnode, (not_visible_iff hnode).1 h⟩

theorem not_visible_of_hidden (h : g.Hidden id) : g.isVisible id ≠ true := by
  obtain ⟨node, hnode, hhidden⟩ := h
  exact (not_visible_iff hnode).2 hhidden

theorem leadingItems_subset (g : Grammar) (items : List NodeId) : g.leadingItems items ⊆ items := by
  induction items with
  | nil => simp [leadingItems]
  | cons item rest ih =>
    simp only [leadingItems]
    split
    · exact List.cons_subset_cons item ih
    · simp

theorem mem_leadingItems_cons (g : Grammar) (item : NodeId) (rest : List NodeId) :
    item ∈ g.leadingItems (item :: rest) := by
  simp only [leadingItems]
  split <;> simp

theorem leadingItems_subset_cons {item : NodeId} (h : g.Nullable item) (rest : List NodeId) :
    g.leadingItems rest ⊆ g.leadingItems (item :: rest) := by
  simp [leadingItems, h.isNullable]

theorem leftmost_eq_components (hnode : g.node? id = some node)
    (h : ∀ items, node.pattern ≠ .sequence items) : g.leftmost id = node.pattern.components := by
  unfold leftmost
  rw [hnode]
  dsimp only
  split
  · rename_i items hp
    exact absurd hp (h items)
  · rfl

theorem leftmost_eq_leadingItems (hnode : g.node? id = some node) {items : List NodeId}
    (hp : node.pattern = .sequence items) : g.leftmost id = g.leadingItems items := by
  simp [leftmost, hnode, hp]

theorem LeftEdge.exists_node (h : g.LeftEdge id c) :
    ∃ node, g.node? id = some node ∧ c ∈ node.pattern.components := by
  cases hnode : g.node? id with
  | none => simp [LeftEdge, leftmost, hnode] at h
  | some node =>
    refine ⟨node, rfl, ?_⟩
    by_cases hp : ∃ items, node.pattern = .sequence items
    · obtain ⟨items, hp⟩ := hp
      rw [LeftEdge, leftmost_eq_leadingItems hnode hp] at h
      rw [hp]
      exact leadingItems_subset g items h
    · rwa [LeftEdge, leftmost_eq_components hnode (fun items hi => hp ⟨items, hi⟩)] at h

/-! ## Ranks -/

/-- Where some rank falls along every edge, no place leads back to itself. -/
theorem not_cycle_of_rank {r : Nat → Nat → Prop} (rank : Nat → Nat) (h : ∀ a c, r a c → rank c < rank a) (a : Nat) :
    ¬ Relation.TransGen r a a := by
  intro hcycle
  have hfall : ∀ c, Relation.TransGen r a c → rank c < rank a := by
    intro c hc
    induction hc with
    | single hedge => exact h _ _ hedge
    | tail _ hedge ih => exact Nat.lt_trans (h _ _ hedge) ih
  exact Nat.lt_irrefl _ (hfall a hcycle)

theorem noHiddenCycle_of_rank (rank : NodeId → Nat) (h : ∀ id c, g.HiddenEdge id c → rank c < rank id) :
    g.NoHiddenCycle := not_cycle_of_rank rank h

/-- Where some rank never rises along an edge and tells the visible rules apart, left recursion is only
direct. -/
theorem directOnly_of_rank (rank : NodeId → Nat) (h : ∀ id c, g.LeftEdge id c → rank c ≤ rank id)
    (hrank : ∀ r r', g.isVisible r = true → g.isVisible r' = true → rank r = rank r' → r = r') :
    g.DirectOnly := by
  have hfall : ∀ id c, Relation.TransGen g.LeftEdge id c → rank c ≤ rank id := by
    intro id c hc
    induction hc with
    | single hedge => exact h _ _ hedge
    | tail _ hedge ih => exact Nat.le_trans (h _ _ hedge) ih
  intro r r' hr hr' hto hback
  exact hrank r r' hr hr' (Nat.le_antisymm (hfall r' r hback) (hfall r r' hto))

open Classical in
/-- Where `c` is on no cycle, fewer places can be reached from `c` than from a place that leads to `c`. -/
theorem card_below_lt {r : Nat → Nat → Prop} {size a c : Nat} (hc : c < size)
    (hcycle : ¬ Relation.TransGen r c c) (h : r a c) :
    ((Finset.range size).filter (Relation.TransGen r c)).card <
      ((Finset.range size).filter (Relation.TransGen r a)).card := by
  refine Finset.card_lt_card ((Finset.ssubset_iff_of_subset ?_).2 ⟨c, ?_, ?_⟩)
  · intro x hx
    rw [Finset.mem_filter] at hx ⊢
    exact ⟨hx.1, .head h hx.2⟩
  · exact Finset.mem_filter.2 ⟨Finset.mem_range.2 hc, .single h⟩
  · exact fun hx => hcycle (Finset.mem_filter.1 hx).2

open Classical in
/-- The number of hidden nodes below a hidden node, that node included. -/
noncomputable def hiddenRank (g : Grammar) (id : NodeId) : Nat :=
  if g.isVisible id then 0
  else ((Finset.range g.size).filter (Relation.TransGen g.HiddenEdge id)).card + 1

open Classical in
theorem hiddenRank_le (g : Grammar) (id : NodeId) : g.hiddenRank id ≤ g.size + 1 := by
  unfold hiddenRank
  split
  · omega
  · have h := Finset.card_filter_le (Finset.range g.size) (Relation.TransGen g.HiddenEdge id)
    rw [Finset.card_range] at h
    omega

open Classical in
theorem hiddenRank_lt (hcycle : g.NoHiddenCycle) (hid : g.Hidden id) (hc : c < g.size)
    (h : g.LeftEdge id c) : g.hiddenRank c < g.hiddenRank id := by
  unfold hiddenRank
  rw [if_neg (not_visible_of_hidden hid)]
  split
  · omega
  · rename_i hvisible
    have hedge : g.HiddenEdge id c := ⟨h, hid, hidden_of_not_visible hc hvisible⟩
    exact Nat.succ_lt_succ (card_below_lt hc (hcycle c) hedge)

end Grammar

end Packrat
