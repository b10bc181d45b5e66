import Packrat.Grammar.Builder
import Mathlib.Data.List.Forall2

/-!
# Built grammars

What every grammar that a builder has accepted can be relied upon for: references lead to nodes,
bounds of repetitions are in order, and only rules have names.
-/

namespace Packrat

namespace Grammar

/-- The grammar comes out of some list of builder steps, of which any may have failed. -/
def Built (g : Grammar) : Prop :=
  ∃ calls : List Builder.Call, (Builder.after {} calls).build = .ok g

/-- What matching relies on. -/
structure WellFormed (g : Grammar) : Prop where
  component_lt : ∀ {id node c}, g.node? id = some node → c ∈ node.pattern.components → c < g.size
  min_le_max : ∀ {id node body min max}, g.node? id = some node →
    node.pattern = .repetition body min (some max) → min ≤ max
  kind_of_name : ∀ {id node}, g.node? id = some node → node.name?.isSome → node.kind = .rule

end Grammar

namespace Builder

def NamesRules (b : Builder) : Prop :=
  ∀ node, .defined node ∈ b.slots → node.name?.isSome → node.kind = .rule

theorem NamesRules.push {b : Builder} (h : b.NamesRules) {slot : Slot}
    (hslot : ∀ node, slot = .defined node → node.name?.isSome → node.kind = .rule) :
    (b.push slot).2.NamesRules := by
  intro node hmem
  rcases Array.mem_push.1 hmem with hold | hnew
  · exact h node hold
  · exact hslot node hnew.symm

theorem NamesRules.reserve {b : Builder} (h : b.NamesRules) (name : String) (isAlias : Bool) :
    (b.reserve name isAlias).2.NamesRules := by
  unfold Builder.reserve
  split
  · exact h
  · split
    · exact h
    · exact h.push (by simp)

theorem NamesRules.define {b : Builder} (h : b.NamesRules) (rule body : NodeId) :
    (b.define rule body).2.NamesRules := by
  unfold Builder.define
  split
  · exact h
  · intro node hmem
    rcases Array.mem_or_eq_of_mem_setIfInBounds hmem with hold | hnew
    · exact h node hold
    · intro _
      obtain rfl : node = _ := Slot.defined.inj hnew
      rfl
  · split <;> exact h

theorem NamesRules.declare {b : Builder} (h : b.NamesRules) (name : String) (isAlias : Bool)
    (body : NodeId) : (b.declare name isAlias body).2.NamesRules := by
  have hr := h.reserve name isAlias
  unfold Builder.declare
  split
  · rename_i heq
    rwa [heq] at hr
  · rename_i id b' heq
    rw [heq] at hr
    have hd := NamesRules.define hr id body
    split <;> rename_i heq' <;> rwa [heq'] at hd

theorem NamesRules.apply {b : Builder} (h : b.NamesRules) (call : Call) :
    (b.apply call).2.NamesRules := by
  cases call with
  | add pattern =>
    refine h.push ?_
    rintro node heq
    obtain rfl := Slot.defined.inj heq
    simp
  | reserve name isAlias => exact h.reserve name isAlias
  | define rule body => exact h.define rule body
  | declare name isAlias body => exact h.declare name isAlias body

theorem NamesRules.after {b : Builder} (h : b.NamesRules) (calls : List Call) :
    (b.after calls).NamesRules := by
  induction calls generalizing b with
  | nil => exact h
  | cons call rest ih => exact ih (h.apply call)

theorem checkSlot_eq_ok {size : Nat} {slot : Slot} {node : Node} (h : checkSlot size slot = .ok node) :
    slot = .defined node ∧ (∀ c ∈ node.pattern.components, c < size) ∧
      ∀ body min max, node.pattern = .repetition body min (some max) → min ≤ max := by
  cases slot with
  | reserved name isAlias => simp [checkSlot] at h
  | defined n =>
    simp only [checkSlot] at h
    split at h
    · simp at h
    · rename_i hmissing
      have hlt : ∀ c ∈ n.pattern.components, c < size := by
        simpa [firstMissing?] using hmissing
      split at h
      · rename_i body min max hpattern
        split at h
        · simp at h
        · rename_i hle
          obtain rfl : n = node := by simpa using h
          refine ⟨rfl, hlt, fun body' min' max' heq => ?_⟩
          rw [hpattern] at heq
          injection heq with _ hmin hmax
          injection hmax with hmax
          omega
      · rename_i hother
        obtain rfl : n = node := by simpa using h
        exact ⟨rfl, hlt, fun body min max heq => absurd heq (hother body min max)⟩

theorem checkSlots_eq_ok {size : Nat} {slots : List Slot} {nodes : List Node}
    (h : checkSlots size slots = .ok nodes) :
    List.Forall₂ (fun slot node => checkSlot size slot = .ok node) slots nodes := by
  induction slots generalizing nodes with
  | nil =>
    obtain rfl : nodes = [] := by simpa [checkSlots, pure, Except.pure] using h.symm
    exact .nil
  | cons slot rest ih =>
    rw [checkSlots] at h
    cases hs : checkSlot size slot with
    | error e => simp [hs, bind, Except.bind] at h
    | ok node =>
      cases hr : checkSlots size rest with
      | error e => simp [hs, hr, bind, Except.bind] at h
      | ok others =>
        obtain rfl : node :: others = nodes := by
          simpa [hs, hr, bind, Except.bind, pure, Except.pure] using h
        exact .cons hs (ih hr)

end Builder

namespace Grammar

theorem Built.wellFormed {g : Grammar} (h : g.Built) : g.WellFormed := by
  obtain ⟨calls, hbuild⟩ := h
  have hnames : (Builder.after {} calls).NamesRules :=
    Builder.NamesRules.after (by intro node hmem; simp at hmem) calls
  generalize Builder.after {} calls = b at hbuild hnames
  cases hcheck : Builder.checkSlots b.slots.size b.slots.toList with
  | error e => simp [Builder.build, hcheck, Except.map] at hbuild
  | ok nodes =>
    obtain rfl : Grammar.mk nodes.toArray = g := by
      simpa [Builder.build, hcheck, Except.map] using hbuild
    have hall := Builder.checkSlots_eq_ok hcheck
    have hsize : b.slots.size = nodes.length := by simpa using hall.length_eq
    have hnode : ∀ {id node}, (Grammar.mk nodes.toArray).node? id = some node →
        .defined node ∈ b.slots ∧ (∀ c ∈ node.pattern.components, c < nodes.length) ∧
          ∀ body min max, node.pattern = .repetition body min (some max) → min ≤ max := by
      intro id node hid
      have hget : nodes[id]? = some node := by simpa [Grammar.node?] using hid
      obtain ⟨hlt, hid⟩ := List.getElem?_eq_some_iff.1 hget
      have hlt' : id < b.slots.toList.length := by simpa [hsize] using hlt
      have hslot := hall.get hlt' hlt
      simp only [List.get_eq_getElem, hid] at hslot
      obtain ⟨hdef, hcomp, hbounds⟩ := Builder.checkSlot_eq_ok hslot
      refine ⟨?_, hsize ▸ hcomp, hbounds⟩
      rw [← Array.mem_toList_iff, ← hdef]
      exact List.getElem_mem hlt'
    exact {
      component_lt := fun hid hc => by simpa [Grammar.size] using (hnode hid).2.1 _ hc
      min_le_max := fun hid heq => (hnode hid).2.2 _ _ _ heq
      kind_of_name := fun hid => hnames _ (hnode hid).1 }

end Grammar

end Packrat
