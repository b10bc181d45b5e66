import Packrat.Proofs.LeftEdges

/-!
# Names

The builder looks a name up before it gives it to a slot. So no two slots have the same name, and neither do
two nodes of a grammar that has been built. A visible rule can be told by its label.
-/

namespace Packrat

def Slot.name? : Slot → Option String
  | .defined node => node.name?
  | .reserved name _ => some name

theorem Node.exists_name {node : Node} (h : node.hidden = false) : ∃ name, node.name? = some name := by
  obtain ⟨_, hname⟩ := Bool.or_eq_false_iff.1 h
  cases hnode : node.name? with
  | none => simp [Node.origin, hnode] at hname
  | some name => exact ⟨name, rfl⟩

namespace Builder

def KnowsNames (b : Builder) : Prop :=
  ∀ (id : NodeId) (slot : Slot) (name : String), b.slots[id]? = some slot → slot.name? = some name →
    b.names.lookup name = some id

variable {b : Builder}

/-- A slot that has been put at the end needs to be found only if it has a name. -/
theorem KnowsNames.push (h : b.KnowsNames) {slot : Slot} {names : List (String × NodeId)}
    (hold : ∀ name id, b.names.lookup name = some id → names.lookup name = some id)
    (hnew : ∀ name, slot.name? = some name → names.lookup name = some b.slots.size) :
    KnowsNames { b with slots := b.slots.push slot, names := names } := by
  intro id other name hid hname
  rw [Array.getElem?_push] at hid
  split at hid
  · rename_i heq
    obtain rfl := Option.some.inj hid
    rw [heq]
    exact hnew name hname
  · exact hold name id (h id other name hid hname)

theorem KnowsNames.add (h : b.KnowsNames) (pattern : Pattern) : (b.add pattern).2.KnowsNames :=
  h.push (fun _ _ hname => hname) fun _ hname => by simp [Slot.name?] at hname

theorem KnowsNames.reserve (h : b.KnowsNames) (name : String) (isAlias : Bool) :
    (b.reserve name isAlias).2.KnowsNames := by
  unfold Builder.reserve
  split
  · exact h
  · split
    · exact h
    · rename_i hfree
      have hfree : b.names.lookup name = none := Option.not_isSome_iff_eq_none.1 hfree
      dsimp only [Builder.push]
      refine KnowsNames.push h ?_ ?_
      · intro other id hother
        rw [List.lookup_append, hother]
        rfl
      · rintro _ ⟨⟩
        rw [List.lookup_append, hfree]
        simp

theorem KnowsNames.define (h : b.KnowsNames) (rule body : NodeId) : (b.define rule body).2.KnowsNames := by
  unfold Builder.define
  split
  · exact h
  · rename_i name isAlias hslot
    intro id slot name' hid hname
    rw [Array.getElem?_setIfInBounds] at hid
    split at hid
    · rename_i heq
      subst heq
      split at hid
      · obtain rfl := Option.some.inj hid
        exact h rule _ name' hslot hname
      · nomatch hid
    · exact h id slot name' hid hname
  · split <;> exact h

theorem KnowsNames.declare (h : b.KnowsNames) (name : String) (isAlias : Bool) (body : NodeId) :
    (b.declare name isAlias body).2.KnowsNames := by
  have hr := h.reserve name isAlias
  unfold Builder.declare
  split
  · rename_i heq
    rwa [heq] at hr
  · rename_i id b' heq
    rw [heq] at hr
    have hd := KnowsNames.define hr id body
    split <;> rename_i heq' <;> rwa [heq'] at hd

theorem KnowsNames.apply (h : b.KnowsNames) (call : Call) : (b.apply call).2.KnowsNames := by
  cases call with
  | add pattern => exact h.add pattern
  | reserve name isAlias => exact h.reserve name isAlias
  | define rule body => exact h.define rule body
  | declare name isAlias body => exact h.declare name isAlias body

theorem KnowsNames.after (h : b.KnowsNames) (calls : List Call) : (b.after calls).KnowsNames := by
  induction calls generalizing b with
  | nil => exact h
  | cons call rest ih => exact ih (h.apply call)

end Builder

namespace Grammar

variable {g : Grammar} {r r' : NodeId}

theorem slot_of_build {b : Builder} (h : b.build = .ok g) {id : NodeId} {node : Node}
    (hnode : g.node? id = some node) : b.slots[id]? = some (.defined node) := by
  cases hcheck : Builder.checkSlots b.slots.size b.slots.toList with
  | error e => simp [Builder.build, hcheck, Except.map] at h
  | ok nodes =>
    obtain rfl : Grammar.mk nodes.toArray = g := by
      simpa [Builder.build, hcheck, Except.map] using h
    have hall := Builder.checkSlots_eq_ok hcheck
    have hget : nodes[id]? = some node := by simpa [Grammar.node?] using hnode
    obtain ⟨hlt, rfl⟩ := List.getElem?_eq_some_iff.1 hget
    have hlt' : id < b.slots.toList.length := hall.length_eq ▸ hlt
    have hslot := (Builder.checkSlot_eq_ok (hall.get hlt' hlt)).1
    rw [← Array.getElem?_toList, List.getElem?_eq_getElem hlt']
    exact congrArg some hslot

/-- No two nodes have the same name. -/
theorem Built.name_injective (hg : g.Built) {node node' : Node} {name : String} (hr : g.node? r = some node)
    (hr' : g.node? r' = some node') (hname : node.name? = some name) (hname' : node'.name? = some name) :
    r = r' := by
  obtain ⟨calls, hbuild⟩ := hg
  have hnames : (Builder.after {} calls).KnowsNames :=
    Builder.KnowsNames.after (fun _ _ _ hid => by simp at hid) calls
  have h := hnames _ _ _ (slot_of_build hbuild hr) hname
  have h' := hnames _ _ _ (slot_of_build hbuild hr') hname'
  exact Option.some.inj (h.symm.trans h')

/-- No two visible rules have the same label. -/
theorem Built.label_injective (hg : g.Built) (hr : g.isVisible r = true) (hr' : g.isVisible r' = true)
    (h : g.label r = g.label r') : r = r' := by
  obtain ⟨node, hnode⟩ := exists_node_of_visible hr
  obtain ⟨node', hnode'⟩ := exists_node_of_visible hr'
  obtain ⟨name, hname⟩ := Node.exists_name ((isVisible_iff hnode).1 hr)
  obtain ⟨name', hname'⟩ := Node.exists_name ((isVisible_iff hnode').1 hr')
  have hlabel : name = name' := by
    simpa [Grammar.label, hnode, hnode', Node.label, Origin.label, Node.origin, hname, hname'] using h
  exact hg.name_injective hnode hnode' hname (hlabel ▸ hname')

end Grammar

end Packrat
