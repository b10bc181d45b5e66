import Packrat.Proofs.Names
import Mathlib.Data.List.Nodup

/-!
# Declarations

A builder keeps its slots and an index of the names of its rules. The two are changed by different steps, and some
steps change both: a rule that is declared at once is first reserved and then defined. Here it is shown that they stay
in agreement whatever steps are taken, and that a step that fails has changed neither.
-/

namespace Packrat

namespace Builder

/-- The step is one that is offered to the author of a grammar: nodes without a name are not rules. -/
def Call.isOffered : Call → Bool
  | .add (.rule _) => false
  | _ => true

structure Indexed (b : Builder) : Prop where
  mem_names_iff : ∀ {name : String} {id : NodeId},
    (name, id) ∈ b.names ↔ ∃ slot, b.slots[id]? = some slot ∧ slot.name? = some name
  name_ne_empty : ∀ {name : String} {id : NodeId}, (name, id) ∈ b.names → name ≠ ""
  nodup : (b.names.map Prod.fst).Nodup

/-- The index agrees with the slots, and among the nodes those with a name are the rules. -/
structure Consistent (b : Builder) : Prop extends Indexed b where
  named_iff_rule : ∀ {node : Node}, .defined node ∈ b.slots → (node.name?.isSome = true ↔ node.kind = .rule)

def ruleNode (name : String) (isAlias : Bool) (body : NodeId) : Node :=
  { pattern := .rule body, name? := some name, isAlias := isAlias }

/-- The slot that a step puts at the end, if it succeeds. -/
def Call.slot? : Call → Option Slot
  | .add pattern => some (.defined { pattern := pattern })
  | .reserve name isAlias => some (.reserved name isAlias)
  | .define _ _ => none
  | .declare name isAlias body => some (.defined (ruleNode name isAlias body))

/-- What the steps that succeed do to a builder, and what they answer. -/
inductive Steps (b : Builder) : Call → Option NodeId → Builder → Prop
  | add (pattern : Pattern) :
      Steps b (.add pattern) (some b.slots.size) { b with slots := b.slots.push (.defined { pattern := pattern }) }
  | reserve (name : String) (isAlias : Bool) (hname : name ≠ "") (hfree : b.names.lookup name = none) :
      Steps b (.reserve name isAlias) (some b.slots.size)
        ⟨b.slots.push (.reserved name isAlias), b.names ++ [(name, b.slots.size)]⟩
  | define (rule body : NodeId) (name : String) (isAlias : Bool)
      (hslot : b.slots[rule]? = some (.reserved name isAlias)) :
      Steps b (.define rule body) none
        { b with slots := b.slots.setIfInBounds rule (.defined (ruleNode name isAlias body)) }
  | declare (name : String) (isAlias : Bool) (body : NodeId) (hname : name ≠ "") (hfree : b.names.lookup name = none) :
      Steps b (.declare name isAlias body) (some b.slots.size)
        ⟨b.slots.push (.defined (ruleNode name isAlias body)), b.names ++ [(name, b.slots.size)]⟩

variable {b b' : Builder} {call : Call} {answer : Option NodeId} {name : String} {isAlias : Bool} {id rule body : NodeId}
  {slot : Slot}

/-! ## Steps -/

theorem reserve_eq_of_free (isAlias : Bool) (hname : name ≠ "") (hfree : b.names.lookup name = none) :
    b.reserve name isAlias =
      (.ok b.slots.size, ⟨b.slots.push (.reserved name isAlias), b.names ++ [(name, b.slots.size)]⟩) := by
  simp [Builder.reserve, Builder.push, hname, hfree]

theorem reserve_cases (b : Builder) (name : String) (isAlias : Bool) :
    (∃ e, b.reserve name isAlias = (.error e, b)) ∨ name ≠ "" ∧ b.names.lookup name = none := by
  by_cases hname : name = ""
  · left
    exact ⟨.emptyRuleName, by simp [Builder.reserve, hname]⟩
  · by_cases hfree : b.names.lookup name = none
    · exact .inr ⟨hname, hfree⟩
    · left
      exact ⟨.duplicateRule name, by simp [Builder.reserve, hname, Option.isSome_iff_ne_none, hfree]⟩

theorem define_eq_of_reserved (body : NodeId) (hslot : b.slots[rule]? = some (.reserved name isAlias)) :
    b.define rule body =
      (.ok (), { b with slots := b.slots.setIfInBounds rule (.defined (ruleNode name isAlias body)) }) := by
  simp [Builder.define, hslot, ruleNode]

theorem define_cases (b : Builder) (rule body : NodeId) :
    (∃ e, b.define rule body = (.error e, b)) ∨ ∃ name isAlias, b.slots[rule]? = some (.reserved name isAlias) := by
  cases hslot : b.slots[rule]? with
  | none =>
    left
    exact ⟨.unknownNode rule, by simp [Builder.define, hslot]⟩
  | some slot =>
    cases slot with
    | reserved name isAlias => exact .inr ⟨name, isAlias, rfl⟩
    | defined node =>
      left
      simp only [Builder.define, hslot]
      split
      · exact ⟨_, rfl⟩
      · exact ⟨_, rfl⟩

theorem declare_eq_of_free (isAlias : Bool) (body : NodeId) (hname : name ≠ "") (hfree : b.names.lookup name = none) :
    b.declare name isAlias body =
      (.ok b.slots.size,
        ⟨b.slots.push (.defined (ruleNode name isAlias body)), b.names ++ [(name, b.slots.size)]⟩) := by
  let reserved : Builder := ⟨b.slots.push (.reserved name isAlias), b.names ++ [(name, b.slots.size)]⟩
  have hslot : reserved.slots[b.slots.size]? = some (.reserved name isAlias) := Array.getElem?_push_size
  have hset : reserved.slots.setIfInBounds b.slots.size (.defined (ruleNode name isAlias body)) =
      b.slots.push (.defined (ruleNode name isAlias body)) := by
    apply Array.ext_getElem?
    grind
  simp only [Builder.declare, reserve_eq_of_free isAlias hname hfree]
  rw [define_eq_of_reserved (b := reserved) body hslot, hset]

/-- A step either fails and leaves the builder as it was, or it does what steps do. -/
theorem apply_cases (b : Builder) (call : Call) :
    (∃ e, b.apply call = (.error e, b)) ∨ ∃ answer b', b.apply call = (.ok answer, b') ∧ b.Steps call answer b' := by
  cases call with
  | add pattern => exact .inr ⟨_, _, rfl, .add pattern⟩
  | reserve name isAlias =>
    rcases b.reserve_cases name isAlias with ⟨e, he⟩ | ⟨hname, hfree⟩
    · left
      exact ⟨e, by simp [apply, he, Except.map]⟩
    · right
      exact ⟨_, _, by simp [apply, reserve_eq_of_free isAlias hname hfree, Except.map], .reserve name isAlias hname hfree⟩
  | define rule body =>
    rcases b.define_cases rule body with ⟨e, he⟩ | ⟨name, isAlias, hslot⟩
    · left
      exact ⟨e, by simp [apply, he, Except.map]⟩
    · right
      exact ⟨_, _, by simp [apply, define_eq_of_reserved body hslot, Except.map], .define rule body name isAlias hslot⟩
  | declare name isAlias body =>
    rcases b.reserve_cases name isAlias with ⟨e, he⟩ | ⟨hname, hfree⟩
    · left
      exact ⟨e, by simp [apply, Builder.declare, he, Except.map]⟩
    · right
      exact ⟨_, _, by simp [apply, declare_eq_of_free isAlias body hname hfree, Except.map],
        .declare name isAlias body hname hfree⟩

/-! ## Agreement of slots and index -/

theorem Indexed.lookup_eq_none_iff (hb : b.Indexed) :
    b.names.lookup name = none ↔ ∀ (id : NodeId) (slot : Slot), b.slots[id]? = some slot → slot.name? ≠ some name := by
  rw [List.lookup_eq_none_iff]
  constructor
  · intro h id slot hslot hname
    simpa using h (name, id) (hb.mem_names_iff.2 ⟨slot, hslot, hname⟩)
  · rintro h ⟨other, id⟩ hmem
    obtain ⟨slot, hslot, hname⟩ := hb.mem_names_iff.1 hmem
    have hne : other ≠ name := by
      rintro rfl
      exact h id slot hslot hname
    simpa using hne.symm

theorem Indexed.name_injective (hb : b.Indexed) {id id' : NodeId} {slot slot' : Slot} (h : b.slots[id]? = some slot)
    (h' : b.slots[id']? = some slot') (hname : slot.name? = some name) (hname' : slot'.name? = some name) : id = id' := by
  have hmem := hb.mem_names_iff.2 ⟨slot, h, hname⟩
  have hmem' := hb.mem_names_iff.2 ⟨slot', h', hname'⟩
  have hpair : (name, id) = (name, id') := List.inj_on_of_nodup_map hb.nodup hmem hmem' rfl
  exact (Prod.mk.inj hpair).2

theorem Indexed.lookup_eq_some_iff (hb : b.Indexed) :
    b.names.lookup name = some id ↔ ∃ slot, b.slots[id]? = some slot ∧ slot.name? = some name := by
  constructor
  · intro h
    obtain ⟨before, after, hnames, -⟩ := List.lookup_eq_some_iff.1 h
    exact hb.mem_names_iff.1 (by simp [hnames])
  · rintro ⟨slot, hslot, hname⟩
    cases hfound : b.names.lookup name with
    | none => exact absurd hname (hb.lookup_eq_none_iff.1 hfound id slot hslot)
    | some id' =>
      obtain ⟨before, after, hnames, -⟩ := List.lookup_eq_some_iff.1 hfound
      obtain ⟨slot', hslot', hname'⟩ := hb.mem_names_iff.1 (show (name, id') ∈ b.names by simp [hnames])
      rw [hb.name_injective hslot' hslot hname' hname]

theorem getElem?_push_some (slots : Array Slot) (new : Slot) :
    (slots.push new)[id]? = some slot ↔ slots[id]? = some slot ∨ id = slots.size ∧ new = slot := by
  grind

/-- A slot without a name is none of the index's business. -/
theorem Indexed.push_unnamed (hb : b.Indexed) (hslot : slot.name? = none) :
    Indexed { b with slots := b.slots.push slot } where
  mem_names_iff := by
    intro name id
    rw [hb.mem_names_iff]
    simp only [getElem?_push_some]
    constructor
    · rintro ⟨other, hother, hname⟩
      exact ⟨other, .inl hother, hname⟩
    · rintro ⟨other, hother | ⟨-, rfl⟩, hname⟩
      · exact ⟨other, hother, hname⟩
      · simp [hslot] at hname
  name_ne_empty := hb.name_ne_empty
  nodup := hb.nodup

/-- A slot with a new name is entered into the index. -/
theorem Indexed.push_named (hb : b.Indexed) (hslot : slot.name? = some name) (hname : name ≠ "")
    (hfree : b.names.lookup name = none) : Indexed ⟨b.slots.push slot, b.names ++ [(name, b.slots.size)]⟩ where
  mem_names_iff := by
    intro other id
    simp only [List.mem_append, List.mem_singleton, Prod.mk.injEq, getElem?_push_some]
    rw [hb.mem_names_iff]
    constructor
    · rintro (⟨old, hold, hother⟩ | ⟨rfl, rfl⟩)
      · exact ⟨old, .inl hold, hother⟩
      · exact ⟨slot, .inr ⟨rfl, rfl⟩, hslot⟩
    · rintro ⟨old, hold | ⟨rfl, rfl⟩, hother⟩
      · exact .inl ⟨old, hold, hother⟩
      · rw [hslot] at hother
        exact .inr ⟨(Option.some.inj hother).symm, rfl⟩
  name_ne_empty := by
    intro other id hmem
    rcases List.mem_append.1 hmem with hmem | hmem
    · exact hb.name_ne_empty hmem
    · obtain ⟨rfl, rfl⟩ := Prod.mk.inj (List.mem_singleton.1 hmem)
      exact hname
  nodup := by
    have hnew : ∀ id, (name, id) ∉ b.names := by
      intro id hmem
      simpa using List.lookup_eq_none_iff.1 hfree _ hmem
    rw [List.map_append, List.map_singleton, List.nodup_append]
    refine ⟨hb.nodup, List.nodup_singleton _, ?_⟩
    intro other hother
    obtain ⟨⟨_, id⟩, hmem, rfl⟩ := List.mem_map.1 hother
    simp only [List.mem_singleton]
    rintro _ rfl rfl
    exact hnew id hmem

theorem Indexed.set (hb : b.Indexed) {old : Slot} (hold : b.slots[rule]? = some old) (hname : slot.name? = old.name?) :
    Indexed { b with slots := b.slots.setIfInBounds rule slot } where
  mem_names_iff := by
    intro other id
    rw [hb.mem_names_iff]
    by_cases hid : id = rule
    · subst hid
      have hlt : id < b.slots.size := (Array.getElem?_eq_some_iff.1 hold).1
      have hnew : (b.slots.setIfInBounds id slot)[id]? = some slot := by simp [hlt]
      simp only [hold, hnew, Option.some.injEq, exists_eq_left', hname]
    · simp [Ne.symm hid]
  name_ne_empty := hb.name_ne_empty
  nodup := hb.nodup

theorem Indexed.steps (hb : b.Indexed) (h : b.Steps call answer b') : b'.Indexed := by
  cases h with
  | add pattern => exact hb.push_unnamed rfl
  | reserve name isAlias hname hfree => exact hb.push_named rfl hname hfree
  | define rule body name isAlias hslot => exact hb.set hslot rfl
  | declare name isAlias body hname hfree => exact hb.push_named rfl hname hfree

theorem indexed_start : Indexed {} where
  mem_names_iff := by simp
  name_ne_empty := by simp
  nodup := by simp

/-- What holds at the start and is kept by the steps that succeed holds after any steps. -/
theorem after_induction {P : Builder → Prop} {b : Builder} {calls : List Call} (hb : P b)
    (hstep : ∀ b b' call answer, call ∈ calls → P b → b.Steps call answer b' → P b') : P (b.after calls) := by
  induction calls generalizing b with
  | nil => exact hb
  | cons call rest ih =>
    have hnext : P (b.apply call).2 := by
      rcases b.apply_cases call with ⟨e, he⟩ | ⟨answer, b', happly, hsteps⟩
      · rwa [he]
      · rw [happly]
        exact hstep b b' call answer List.mem_cons_self hb hsteps
    exact ih hnext fun b b' call answer hcall => hstep b b' call answer (List.mem_cons_of_mem _ hcall)

theorem indexed_after (calls : List Call) : (Builder.after {} calls).Indexed :=
  after_induction indexed_start fun _ _ _ _ _ hb hsteps => hb.steps hsteps

theorem Consistent.steps (hb : b.Consistent) (hcall : call.isOffered = true) (h : b.Steps call answer b') :
    b'.Consistent := by
  refine ⟨hb.toIndexed.steps h, ?_⟩
  intro node hmem
  cases h with
  | add pattern =>
    rcases Array.mem_push.1 hmem with hold | hnew
    · exact hb.named_iff_rule hold
    · obtain rfl := Slot.defined.inj hnew
      cases pattern <;> simp [Call.isOffered, Node.kind, Pattern.kind] at hcall ⊢
  | reserve name isAlias hname hfree =>
    rcases Array.mem_push.1 hmem with hold | hnew
    · exact hb.named_iff_rule hold
    · nomatch hnew
  | define rule body name isAlias hslot =>
    rcases Array.mem_or_eq_of_mem_setIfInBounds hmem with hold | hnew
    · exact hb.named_iff_rule hold
    · obtain rfl := Slot.defined.inj hnew
      simp [ruleNode, Node.kind, Pattern.kind]
  | declare name isAlias body hname hfree =>
    rcases Array.mem_push.1 hmem with hold | hnew
    · exact hb.named_iff_rule hold
    · obtain rfl := Slot.defined.inj hnew
      simp [ruleNode, Node.kind, Pattern.kind]

theorem consistent_after {calls : List Call} (hcalls : ∀ call ∈ calls, call.isOffered = true) :
    (Builder.after {} calls).Consistent :=
  after_induction ⟨indexed_start, by simp⟩ fun _ _ call _ hcall hb hsteps => hb.steps (hcalls call hcall) hsteps

/-! ## Carrying out a step -/

/-- The steps that succeed: a new rule needs a name that no slot has, and a body needs a rule that has none yet. -/
def Accepts (b : Builder) : Call → Prop
  | .add _ => True
  | .reserve name _ | .declare name _ _ =>
    name ≠ "" ∧ ∀ (id : NodeId) (slot : Slot), b.slots[id]? = some slot → slot.name? ≠ some name
  | .define rule _ => ∃ name isAlias, b.slots[rule]? = some (.reserved name isAlias)

theorem accepts_iff (hb : b.Indexed) (call : Call) : b.Accepts call ↔ ∃ answer b', b.Steps call answer b' := by
  constructor
  · intro h
    cases call with
    | add pattern => exact ⟨_, _, .add pattern⟩
    | reserve name isAlias => exact ⟨_, _, .reserve name isAlias h.1 (hb.lookup_eq_none_iff.2 h.2)⟩
    | define rule body =>
      obtain ⟨name, isAlias, hslot⟩ := h
      exact ⟨_, _, .define rule body name isAlias hslot⟩
    | declare name isAlias body => exact ⟨_, _, .declare name isAlias body h.1 (hb.lookup_eq_none_iff.2 h.2)⟩
  · rintro ⟨answer, b', h⟩
    cases h with
    | add pattern => trivial
    | reserve name isAlias hname hfree => exact ⟨hname, hb.lookup_eq_none_iff.1 hfree⟩
    | define rule body name isAlias hslot => exact ⟨name, isAlias, hslot⟩
    | declare name isAlias body hname hfree => exact ⟨hname, hb.lookup_eq_none_iff.1 hfree⟩

theorem Steps.apply_eq (h : b.Steps call answer b') : b.apply call = (.ok answer, b') := by
  cases h with
  | add pattern => rfl
  | reserve name isAlias hname hfree => simp [apply, reserve_eq_of_free isAlias hname hfree, Except.map]
  | define rule body name isAlias hslot => simp [apply, define_eq_of_reserved body hslot, Except.map]
  | declare name isAlias body hname hfree => simp [apply, declare_eq_of_free isAlias body hname hfree, Except.map]

theorem steps_of_ok (h : (b.apply call).1 = .ok answer) : b.Steps call answer (b.apply call).2 := by
  rcases b.apply_cases call with ⟨e, he⟩ | ⟨answer', b', happly, hsteps⟩
  · simp [he] at h
  · rw [happly] at h ⊢
    obtain rfl := Except.ok.inj h
    exact hsteps

structure CarriesOut (b : Builder) (call : Call) : Prop where
  succeeds_iff : (∃ answer, (b.apply call).1 = .ok answer) ↔ b.Accepts call
  /-- A step that fails changes nothing. -/
  unchanged : ∀ e, (b.apply call).1 = .error e → (b.apply call).2 = b
  /-- All steps but one put a slot at the end, and answer its place. -/
  appends : ∀ slot answer, call.slot? = some slot → (b.apply call).1 = .ok answer →
    answer = some b.slots.size ∧ (b.apply call).2.slots = b.slots.push slot
  /-- Defining a rule makes a node of its slot, and touches nothing else. -/
  fills : ∀ rule body answer, call = .define rule body → (b.apply call).1 = .ok answer →
    ∃ name isAlias, b.slots[rule]? = some (.reserved name isAlias) ∧
      (b.apply call).2.slots[rule]? = some (.defined (ruleNode name isAlias body)) ∧
      (∀ id, id ≠ rule → (b.apply call).2.slots[id]? = b.slots[id]?) ∧ (b.apply call).2.names = b.names

theorem Indexed.carriesOut (hb : b.Indexed) (call : Call) : b.CarriesOut call where
  succeeds_iff := by
    rw [accepts_iff hb]
    constructor
    · rintro ⟨answer, hanswer⟩
      exact ⟨answer, _, steps_of_ok hanswer⟩
    · rintro ⟨answer, b', hsteps⟩
      exact ⟨answer, by rw [hsteps.apply_eq]⟩
  unchanged := by
    intro e he
    rcases b.apply_cases call with ⟨e', he'⟩ | ⟨answer, b', happly, -⟩
    · rw [he']
    · simp [happly] at he
  appends := by
    intro slot answer hcall hanswer
    have hsteps := steps_of_ok hanswer
    generalize (b.apply call).2 = b' at hsteps ⊢
    cases hsteps with
    | add pattern => cases hcall; exact ⟨rfl, rfl⟩
    | reserve name isAlias hname hfree => cases hcall; exact ⟨rfl, rfl⟩
    | define rule body name isAlias hslot => nomatch hcall
    | declare name isAlias body hname hfree => cases hcall; exact ⟨rfl, rfl⟩
  fills := by
    rintro rule body answer rfl hanswer
    have hsteps := steps_of_ok hanswer
    generalize (b.apply (.define rule body)).2 = b' at hsteps ⊢
    cases hsteps with
    | define _ _ name isAlias hslot =>
      have hlt : rule < b.slots.size := (Array.getElem?_eq_some_iff.1 hslot).1
      refine ⟨name, isAlias, hslot, ?_, ?_, rfl⟩
      · simp [hlt]
      · intro id hid
        simp [Ne.symm hid]

/-- After any steps the index of names holds exactly the slots of rules, each under its name, which no other slot has,
and among the nodes those with a name are the rules. Every further step either fails and changes nothing, or adds one
slot, or fills the slot of a reserved rule. -/
theorem stays_consistent {calls : List Call} (hcalls : ∀ call ∈ calls, call.isOffered = true) :
    (Builder.after {} calls).Consistent ∧
      (∀ (id id' : NodeId) (slot slot' : Slot) (name : String), (Builder.after {} calls).slots[id]? = some slot →
        (Builder.after {} calls).slots[id']? = some slot' → slot.name? = some name → slot'.name? = some name → id = id') ∧
      ∀ call, (Builder.after {} calls).CarriesOut call := by
  have hconsistent := consistent_after hcalls
  refine ⟨hconsistent, ?_, hconsistent.carriesOut⟩
  intro id id' slot slot' name h h' hname hname'
  exact hconsistent.name_injective h h' hname hname'

def clumsyCalls : List Call :=
  [.reserve "Sum" false, .add (.literal "+"), .declare "Sum" true 1, .declare "Sign" true 1, .define 0 2, .define 0 1,
    .define 1 0]

/-- The sign is found in its slot, and a third rule of its name is refused. -/
theorem clumsyCalls_stay_consistent : (∀ call ∈ clumsyCalls, call.isOffered = true) ∧
    ("Sign", 2) ∈ (Builder.after {} clumsyCalls).names ∧
      ¬ ∃ answer, ((Builder.after {} clumsyCalls).apply (.declare "Sign" false 0)).1 = .ok answer := by
  have hoffered : ∀ call ∈ clumsyCalls, call.isOffered = true := by simp [clumsyCalls, Call.isOffered]
  obtain ⟨hconsistent, -, hcarries⟩ := stays_consistent hoffered
  have hslot : (Builder.after {} clumsyCalls).slots[2]? = some (.defined (ruleNode "Sign" true 1)) := rfl
  refine ⟨hoffered, hconsistent.mem_names_iff.2 ⟨_, hslot, rfl⟩, ?_⟩
  rw [(hcarries _).succeeds_iff]
  rintro ⟨-, hfree⟩
  exact hfree 2 _ hslot rfl

end Builder

end Packrat
