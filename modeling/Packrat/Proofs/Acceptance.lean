import Packrat.Proofs.Declarations

/-!
# What a builder accepts

A builder makes a grammar of its slots if there is nothing wrong with any of them. Otherwise it reports what is wrong
with the first slot with which something is wrong. The grammar has the nodes of the slots, in their order, and its
rules are found under the names of the builder's index.
-/

namespace Packrat

namespace Slot

/-- Nothing is wrong with the slot in a list of the given size. -/
def Sound (size : Nat) : Slot → Prop
  | .reserved _ _ => False
  | .defined node => (∀ c ∈ node.pattern.components, c < size) ∧
      ∀ body min max, node.pattern = .repetition body min (some max) → min ≤ max

/-- What is to be reported about a slot in a list of the given size. -/
inductive Fault (size : Nat) : Slot → BuildError → Prop
  | undefinedRule (name : String) (isAlias : Bool) : Fault size (.reserved name isAlias) (.undefinedRule name)
  /-- Of the components that lead nowhere, the first is reported. -/
  | unknownNode (node : Node) (c : NodeId) (earlier later : List NodeId)
      (hcomponents : node.pattern.components = earlier ++ c :: later) (hearlier : ∀ x ∈ earlier, x < size)
      (hc : size ≤ c) : Fault size (.defined node) (.unknownNode c)
  | invalidBounds (node : Node) (body : NodeId) (min max : Nat)
      (hpattern : node.pattern = .repetition body min (some max)) (hbody : body < size) (hlt : max < min) :
      Fault size (.defined node) (.invalidRepetitionBounds min max)

end Slot

namespace Builder

variable {size : Nat} {slot : Slot} {slots : List Slot} {e : BuildError} {node : Node}

theorem firstMissing?_eq_none_iff {pattern : Pattern} :
    firstMissing? size pattern = none ↔ ∀ c ∈ pattern.components, c < size := by
  simp [firstMissing?]

theorem firstMissing?_eq_some_iff {pattern : Pattern} {c : NodeId} :
    firstMissing? size pattern = some c ↔ size ≤ c ∧ ∃ earlier later,
      pattern.components = earlier ++ c :: later ∧ ∀ x ∈ earlier, x < size := by
  simp [firstMissing?, List.find?_eq_some_iff_append]

theorem checkSlot_of_missing {c : NodeId} (h : firstMissing? size node.pattern = some c) :
    checkSlot size (.defined node) = .error (.unknownNode c) := by
  simp [checkSlot, h]

theorem checkSlot_of_bounds {body : NodeId} {min max : Nat} (h : firstMissing? size node.pattern = none)
    (hpattern : node.pattern = .repetition body min (some max)) (hlt : max < min) :
    checkSlot size (.defined node) = .error (.invalidRepetitionBounds min max) := by
  simp only [checkSlot, h]
  simp [hpattern, hlt]

theorem checkSlot_of_sound (h : (Slot.defined node).Sound size) : checkSlot size (.defined node) = .ok node := by
  have hmissing : firstMissing? size node.pattern = none := firstMissing?_eq_none_iff.2 h.1
  simp only [checkSlot, hmissing]
  split
  · rename_i body min max hpattern
    exact if_neg (Nat.not_lt.2 (h.2 body min max hpattern))
  · rfl

theorem sound_or_fault (size : Nat) (slot : Slot) : slot.Sound size ∨ ∃ e, slot.Fault size e := by
  cases slot with
  | reserved name isAlias => exact .inr ⟨_, .undefinedRule name isAlias⟩
  | defined node =>
    cases hmissing : firstMissing? size node.pattern with
    | some c =>
      obtain ⟨hc, earlier, later, hcomponents, hearlier⟩ := firstMissing?_eq_some_iff.1 hmissing
      exact .inr ⟨_, .unknownNode node c earlier later hcomponents hearlier hc⟩
    | none =>
      have hcomponents := firstMissing?_eq_none_iff.1 hmissing
      by_cases hbounds : ∃ body min max, node.pattern = .repetition body min (some max) ∧ max < min
      · obtain ⟨body, min, max, hpattern, hlt⟩ := hbounds
        have hbody : body < size := hcomponents body (by simp [hpattern, Pattern.components])
        exact .inr ⟨_, .invalidBounds node body min max hpattern hbody hlt⟩
      · left
        refine ⟨hcomponents, ?_⟩
        intro body min max hpattern
        by_contra hle
        exact hbounds ⟨body, min, max, hpattern, Nat.lt_of_not_le hle⟩

theorem checkSlot_of_fault (h : slot.Fault size e) : checkSlot size slot = .error e := by
  cases h with
  | undefinedRule name isAlias => rfl
  | unknownNode node c earlier later hcomponents hearlier hc =>
    exact checkSlot_of_missing (firstMissing?_eq_some_iff.2 ⟨hc, earlier, later, hcomponents, hearlier⟩)
  | invalidBounds node body min max hpattern hbody hlt =>
    have hmissing : firstMissing? size node.pattern = none := by
      simp [firstMissing?, hpattern, Pattern.components, hbody]
    exact checkSlot_of_bounds hmissing hpattern hlt

/-! ## Lists of slots -/

theorem checkSlots_cons (size : Nat) (slot : Slot) (rest : List Slot) :
    checkSlots size (slot :: rest) = (checkSlot size slot).bind fun node => (checkSlots size rest).map (node :: ·) := by
  rw [checkSlots]
  cases checkSlot size slot with
  | error e => rfl
  | ok node => cases checkSlots size rest <;> rfl

theorem exists_checkSlots (h : ∀ slot ∈ slots, slot.Sound size) :
    ∃ nodes, checkSlots size slots = .ok nodes ∧ slots = nodes.map .defined := by
  induction slots with
  | nil => exact ⟨[], rfl, rfl⟩
  | cons slot rest ih =>
    obtain ⟨nodes, hnodes, hrest⟩ := ih fun other hother => h other (List.mem_cons_of_mem _ hother)
    cases slot with
    | reserved name isAlias => exact absurd (h _ List.mem_cons_self) id
    | defined node =>
      refine ⟨node :: nodes, ?_, by rw [hrest, List.map_cons]⟩
      rw [checkSlots_cons, checkSlot_of_sound (h _ List.mem_cons_self), hnodes]
      rfl

theorem checkSlots_of_fault {before after : List Slot} (hbefore : ∀ slot ∈ before, slot.Sound size)
    (h : slot.Fault size e) : checkSlots size (before ++ slot :: after) = .error e := by
  induction before with
  | nil =>
    rw [List.nil_append, checkSlots_cons, checkSlot_of_fault h]
    rfl
  | cons first rest ih =>
    have hrest := ih fun other hother => hbefore other (List.mem_cons_of_mem _ hother)
    cases first with
    | reserved name isAlias => exact absurd (hbefore _ List.mem_cons_self) id
    | defined node =>
      rw [List.cons_append, checkSlots_cons, checkSlot_of_sound (hbefore _ List.mem_cons_self), hrest]
      rfl

theorem all_sound_or_first_fault (size : Nat) (slots : List Slot) : (∀ slot ∈ slots, slot.Sound size) ∨
    ∃ before slot after e, slots = before ++ slot :: after ∧ (∀ other ∈ before, other.Sound size) ∧
      slot.Fault size e := by
  induction slots with
  | nil => exact .inl (by simp)
  | cons first rest ih =>
    rcases sound_or_fault size first with hfirst | ⟨e, he⟩
    · rcases ih with hall | ⟨before, slot, after, e, rfl, hbefore, he⟩
      · left
        simpa [hfirst] using hall
      · right
        exact ⟨first :: before, slot, after, e, rfl, by simpa [hfirst] using hbefore, he⟩
    · right
      exact ⟨[], first, rest, e, rfl, by simp, he⟩

/-! ## Grammars -/

variable {b : Builder} {g : Grammar}

/-- The builder comes out of some list of steps, of which any may have failed. -/
def IsReached (b : Builder) : Prop := ∃ calls : List Call, Builder.after {} calls = b

theorem IsReached.indexed (hb : b.IsReached) : b.Indexed := by
  obtain ⟨calls, rfl⟩ := hb
  exact indexed_after calls

theorem IsReached.built (hb : b.IsReached) (h : b.build = .ok g) : g.Built := by
  obtain ⟨calls, rfl⟩ := hb
  exact ⟨calls, h⟩

theorem exists_build (h : ∀ slot ∈ b.slots, slot.Sound b.slots.size) :
    ∃ g, b.build = .ok g ∧ b.slots.toList = g.nodes.toList.map .defined := by
  have hall : ∀ slot ∈ b.slots.toList, slot.Sound b.slots.size := by simpa using h
  obtain ⟨nodes, hnodes, hslots⟩ := exists_checkSlots hall
  exact ⟨⟨nodes.toArray⟩, by simp [build, hnodes, Except.map], hslots⟩

theorem build_of_fault {before after : List Slot} (hslots : b.slots.toList = before ++ slot :: after)
    (hbefore : ∀ other ∈ before, other.Sound b.slots.size) (h : slot.Fault b.slots.size e) : b.build = .error e := by
  rw [build, hslots, checkSlots_of_fault hbefore h]
  rfl

theorem slots_of_build (h : b.build = .ok g) : b.slots.toList = g.nodes.toList.map .defined := by
  rcases all_sound_or_first_fault b.slots.size b.slots.toList with hall | ⟨before, slot, after, e, hslots, hbefore, he⟩
  · obtain ⟨g', hg', hslots⟩ := exists_build (b := b) (by simpa using hall)
    rw [h] at hg'
    obtain rfl := Except.ok.inj hg'
    exact hslots
  · rw [build_of_fault hslots hbefore he] at h
    nomatch h

theorem exists_node_of_build {id : NodeId} (h : b.build = .ok g) (hslot : b.slots[id]? = some slot) :
    ∃ node, g.node? id = some node ∧ .defined node = slot := by
  rw [← Array.getElem?_toList, slots_of_build h, List.getElem?_map] at hslot
  simpa [Grammar.node?] using hslot

/-- Building succeeds exactly if all slots are sound. -/
theorem build_ok_iff : (∃ g, b.build = .ok g) ↔ ∀ slot ∈ b.slots, slot.Sound b.slots.size := by
  constructor
  · rintro ⟨g, hg⟩
    rcases all_sound_or_first_fault b.slots.size b.slots.toList with hall | ⟨before, slot, after, e, hslots, hbefore, he⟩
    · simpa using hall
    · rw [build_of_fault hslots hbefore he] at hg
      nomatch hg
  · intro h
    obtain ⟨g, hg, -⟩ := exists_build h
    exact ⟨g, hg⟩

/-- Building fails exactly with what is wrong with the first slot that is not sound. -/
theorem build_error_iff : b.build = .error e ↔
    ∃ (id : NodeId) (slot : Slot), b.slots[id]? = some slot ∧ slot.Fault b.slots.size e ∧
      ∀ (id' : NodeId) (slot' : Slot), id' < id → b.slots[id']? = some slot' → slot'.Sound b.slots.size := by
  constructor
  · intro h
    rcases all_sound_or_first_fault b.slots.size b.slots.toList with hall | ⟨before, slot, after, e', hslots, hbefore, he⟩
    · obtain ⟨g, hg, -⟩ := exists_build (b := b) (by simpa using hall)
      rw [h] at hg
      nomatch hg
    · rw [build_of_fault hslots hbefore he] at h
      obtain rfl := Except.error.inj h
      refine ⟨before.length, slot, ?_, he, ?_⟩
      · rw [← Array.getElem?_toList, hslots]
        simp
      · intro id' slot' hid' hslot'
        rw [← Array.getElem?_toList, hslots, List.getElem?_append_left hid'] at hslot'
        exact hbefore slot' (List.mem_of_getElem? hslot')
  · rintro ⟨id, slot, hslot, he, hbefore⟩
    rw [← Array.getElem?_toList] at hslot
    obtain ⟨hlt, rfl⟩ := List.getElem?_eq_some_iff.1 hslot
    have hslots : b.slots.toList = b.slots.toList.take id ++ b.slots.toList[id] :: b.slots.toList.drop (id + 1) := by
      rw [← List.drop_eq_getElem_cons hlt, List.take_append_drop]
    apply build_of_fault hslots _ he
    · intro other hother
      obtain ⟨id', hid', rfl⟩ := List.mem_take_iff_getElem.1 hother
      apply hbefore id' _ (Nat.lt_of_lt_of_le hid' (Nat.min_le_left _ _))
      simp

end Builder

namespace Grammar

variable {b : Builder} {g : Grammar} {name : String} {id : NodeId}

/-- A rule is found under its name, which no other rule has. -/
theorem Built.rule?_eq_some_iff (hg : g.Built) : g.rule? name = some id ↔
    ∃ node, g.node? id = some node ∧ node.kind = .rule ∧ node.name? = some name := by
  have hfind : ∀ id, g.rule? name = some id →
      ∃ node, g.node? id = some node ∧ node.kind = .rule ∧ node.name? = some name := by
    intro id h
    rw [rule?] at h
    simpa [Option.any_eq_true] using List.find?_some h
  constructor
  · exact hfind id
  · rintro ⟨node, hnode, hkind, hname⟩
    cases hfound : g.rule? name with
    | none =>
      have hnone := List.find?_eq_none.1 hfound id (mem_ids.2 (lt_size_of_node? hnode))
      simp [hnode, hkind, hname] at hnone
    | some id' =>
      obtain ⟨node', hnode', -, hname'⟩ := hfind id' hfound
      rw [hg.name_injective hnode' hnode hname' hname]

end Grammar

namespace Builder

variable {b : Builder} {g : Grammar}

theorem IsReached.rule?_eq_lookup (hb : b.IsReached) (h : b.build = .ok g) (name : String) :
    g.rule? name = b.names.lookup name := by
  have hbuilt := hb.built h
  apply Option.ext
  intro id
  rw [hbuilt.rule?_eq_some_iff, hb.indexed.lookup_eq_some_iff]
  constructor
  · rintro ⟨node, hnode, -, hname⟩
    exact ⟨.defined node, Grammar.slot_of_build h hnode, hname⟩
  · rintro ⟨slot, hslot, hname⟩
    obtain ⟨node, hnode, rfl⟩ := exists_node_of_build h hslot
    exact ⟨node, hnode, hbuilt.wellFormed.kind_of_name hnode (by simp [show node.name? = some name from hname]), hname⟩

/-- Building succeeds exactly if no slot is reserved, all components are nodes, and all bounds are in order. It fails
with what is wrong with the first slot for which this is not so. The grammar has the nodes of the slots, a rule is found
under exactly its name, and every component of a node is a node. -/
theorem IsReached.build_decides (hb : b.IsReached) :
    ((∃ g, b.build = .ok g) ↔ ∀ slot ∈ b.slots, slot.Sound b.slots.size) ∧
      (∀ e, b.build = .error e ↔
        ∃ (id : NodeId) (slot : Slot), b.slots[id]? = some slot ∧ slot.Fault b.slots.size e ∧
          ∀ (id' : NodeId) (slot' : Slot), id' < id → b.slots[id']? = some slot' → slot'.Sound b.slots.size) ∧
      ∀ g, b.build = .ok g →
        b.slots.toList = g.nodes.toList.map .defined ∧
          (∀ name id, g.rule? name = some id ↔
            ∃ node, g.node? id = some node ∧ node.kind = .rule ∧ node.name? = some name) ∧
          (∀ name, g.rule? name = b.names.lookup name) ∧
          ∀ id node c, g.node? id = some node → c ∈ node.pattern.components → ∃ node', g.node? c = some node' := by
  refine ⟨build_ok_iff, fun e => build_error_iff, ?_⟩
  intro g hg
  have hbuilt := hb.built hg
  refine ⟨slots_of_build hg, fun name id => hbuilt.rule?_eq_some_iff, hb.rule?_eq_lookup hg, ?_⟩
  intro id node c hnode hc
  exact Grammar.exists_node (hbuilt.wellFormed.component_lt hnode hc)

/-- Several defects: two components that are missing, a rule without a body, and bounds in the wrong order. -/
def faulty : Builder := Builder.after {}
  [.add (.literal "a"), .add (.sequence [0, 7, 9]), .reserve "A" false, .add (.repetition 0 3 (some 2))]

def sumSteps : Builder := Builder.after {}
  [.reserve "Sum" false, .add (.sequence [0, 3, 2]), .add (.charClass .digit), .add (.literal "+"), .add (.choice [1, 2]),
    .define 0 4]

/-- The first missing component of the first slot with a defect is reported, and the rule of a sound list of slots is
found under its name. -/
theorem faulty_build_decides : faulty.IsReached ∧ faulty.build = .error (.unknownNode 7) ∧
    sumSteps.IsReached ∧ ∃ g, sumSteps.build = .ok g ∧ g.rule? "Sum" = some 0 := by
  have hfaulty : faulty.IsReached := ⟨_, rfl⟩
  have hsum : sumSteps.IsReached := ⟨_, rfl⟩
  refine ⟨hfaulty, ?_, hsum, ?_⟩
  · rw [hfaulty.build_decides.2.1]
    refine ⟨1, .defined { pattern := .sequence [0, 7, 9] }, rfl, ?_, ?_⟩
    · exact .unknownNode _ 7 [0] [9] rfl (by decide) (by decide)
    · intro id' slot' hid' hslot'
      obtain rfl : id' = 0 := Nat.lt_one_iff.1 hid'
      obtain rfl : .defined { pattern := .literal "a" } = slot' := Option.some.inj hslot'
      exact ⟨by simp [Pattern.components], by simp⟩
  · have hbuild : ∃ g, sumSteps.build = .ok g := ⟨_, rfl⟩
    obtain ⟨g, hg⟩ := hbuild
    refine ⟨g, hg, ?_⟩
    rw [(hsum.build_decides.2.2 g hg).2.2.1]
    decide

end Builder

end Packrat
