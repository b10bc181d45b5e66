import Packrat.Matcher.Call
import Packrat.Proofs.Built

/-!
# Redirected references

A grammar in which every reference is led elsewhere by a function on ids. Nodes keep their places, names and kinds, so
that the redirected grammar is matched like the first one, except that each call is redirected. It comes out of a
builder if the first one does and references still lead to nodes.
-/

namespace Packrat

variable (f : NodeId → NodeId)

namespace Pattern

def redirect : Pattern → Pattern
  | .literal text => .literal text
  | .charClass cls => .charClass cls
  | .sequence items => .sequence (items.map f)
  | .choice alternatives => .choice (alternatives.map f)
  | .repetition body min max? => .repetition (f body) min max?
  | .predicate body expected => .predicate (f body) expected
  | .rule body => .rule (f body)

@[simp] theorem kind_redirect (pattern : Pattern) : (pattern.redirect f).kind = pattern.kind := by
  cases pattern <;> rfl

@[simp] theorem components_redirect (pattern : Pattern) :
    (pattern.redirect f).components = pattern.components.map f := by
  cases pattern <;> rfl

variable (call : Evaluator)

theorem matchItems_redirect (start : Nat) (items : List NodeId) (acc : Match) (s : Session) :
    matchItems call start (items.map f) acc s = matchItems (fun c => call (f c)) start items acc s := by
  induction items generalizing acc s with
  | nil => rfl
  | cons item rest ih => simp only [List.map_cons, matchItems, ih]

theorem matchAlternatives_redirect (start : Nat) (alternatives : List NodeId) (s : Session) :
    matchAlternatives call start (alternatives.map f) s =
      matchAlternatives (fun c => call (f c)) start alternatives s := by
  induction alternatives generalizing s with
  | nil => rfl
  | cons alternative rest ih => simp only [List.map_cons, matchAlternatives, ih]

theorem matchRounds_redirect (body : NodeId) (min : Nat) (max? : Option Nat) (rounds count : Nat) (acc : Match)
    (s : Session) :
    matchRounds call (f body) min max? rounds count acc s =
      matchRounds (fun c => call (f c)) body min max? rounds count acc s := by
  induction rounds generalizing count acc s with
  | zero => rfl
  | succ rounds ih => simp only [matchRounds, ih]

theorem eval_redirect (label : String) (s : Session) (pattern : Pattern) :
    (pattern.redirect f).eval call label s = pattern.eval (fun c => call (f c)) label s := by
  cases pattern with
  | literal text => rfl
  | charClass cls => rfl
  | sequence items => exact matchItems_redirect f call ..
  | choice alternatives => exact matchAlternatives_redirect f call ..
  | repetition body min max? => simp only [redirect, eval, matchRepetition, matchRounds_redirect]
  | predicate body expected => rfl
  | rule body => rfl

end Pattern

namespace Node

def redirect (node : Node) : Node := { node with pattern := node.pattern.redirect f }

@[simp] theorem pattern_redirect (node : Node) : (node.redirect f).pattern = node.pattern.redirect f := rfl

@[simp] theorem origin_redirect (node : Node) : (node.redirect f).origin = node.origin := by
  simp [redirect, origin, kind]

@[simp] theorem label_redirect (node : Node) : (node.redirect f).label = node.label := by simp [label]

@[simp] theorem hidden_redirect (node : Node) : (node.redirect f).hidden = node.hidden := by simp [hidden]

variable (call : Evaluator) (node : Node)

theorem eval_redirect : (node.redirect f).eval call = node.eval (fun c => call (f c)) := by
  ext s
  simp only [eval, pattern_redirect, label_redirect, origin_redirect, Pattern.eval_redirect]

theorem growRounds_redirect (id : NodeId) (initial rounds iteration : Nat) (committed : Match) (s : Session) :
    growRounds call (node.redirect f) id initial rounds iteration committed s =
      growRounds (fun c => call (f c)) node id initial rounds iteration committed s := by
  induction rounds generalizing iteration committed s with
  | zero => rfl
  | succ rounds ih => simp only [growRounds, eval_redirect, label_redirect, ih]

theorem answerFirst_redirect (id : NodeId) :
    (node.redirect f).answerFirst call id = node.answerFirst (fun c => call (f c)) id := by
  ext s
  simp only [answerFirst, grow, growRounds_redirect, eval_redirect, label_redirect]

theorem answerFromMemo_redirect (id : NodeId) (memo : Match) :
    (node.redirect f).answerFromMemo id memo = node.answerFromMemo id memo := by
  ext s
  simp only [answerFromMemo, label_redirect]

end Node

namespace Grammar

/-- The grammar with every reference redirected. -/
def redirect (g : Grammar) : Grammar := ⟨g.nodes.map (Node.redirect f)⟩

@[simp] theorem size_redirect (g : Grammar) : (g.redirect f).size = g.size := by simp [redirect, size]

@[simp] theorem node?_redirect (g : Grammar) (id : NodeId) :
    (g.redirect f).node? id = (g.node? id).map (Node.redirect f) := by
  simp [redirect, node?]

/-- The redirected grammar answers a call as the first one does when the calls inside it are redirected. -/
theorem answer_redirect (g : Grammar) (call : Evaluator) :
    (g.redirect f).answer call = g.answer (fun c => call (f c)) := by
  ext id s
  simp only [answer, node?_redirect]
  cases g.node? id with
  | none => rfl
  | some node =>
    simp only [Option.map_some, Node.hidden_redirect, Node.label_redirect, Node.eval_redirect,
      Node.answerFirst_redirect, Node.answerFromMemo_redirect]

end Grammar

/-! ## Building -/

namespace Slot

def redirect : Slot → Slot
  | .defined node => .defined (node.redirect f)
  | .reserved name isAlias => .reserved name isAlias

end Slot

namespace Builder

def Call.redirect : Call → Call
  | .add pattern => .add (pattern.redirect f)
  | .reserve name isAlias => .reserve name isAlias
  | .define rule body => .define rule (f body)
  | .declare name isAlias body => .declare name isAlias (f body)

def redirect (b : Builder) : Builder := { b with slots := b.slots.map (Slot.redirect f) }

variable (b : Builder)

theorem push_redirect (slot : Slot) :
    (b.redirect f).push (slot.redirect f) = ((b.push slot).1, (b.push slot).2.redirect f) := by
  simp [push, redirect]

theorem reserve_redirect (name : String) (isAlias : Bool) :
    (b.redirect f).reserve name isAlias = ((b.reserve name isAlias).1, (b.reserve name isAlias).2.redirect f) := by
  have hpush : (b.redirect f).push (.reserved name isAlias) =
      ((b.push (.reserved name isAlias)).1, (b.push (.reserved name isAlias)).2.redirect f) :=
    push_redirect f b (.reserved name isAlias)
  have hnames : (b.redirect f).names = b.names := rfl
  unfold reserve
  rw [hnames, hpush]
  split
  · rfl
  · split <;> rfl

theorem define_redirect (rule body : NodeId) :
    (b.redirect f).define rule (f body) = ((b.define rule body).1, (b.define rule body).2.redirect f) := by
  have hslot : (b.redirect f).slots[rule]? = b.slots[rule]?.map (Slot.redirect f) := by simp [redirect]
  unfold define
  rw [hslot]
  cases hrule : b.slots[rule]? with
  | none => rfl
  | some slot =>
    cases slot with
    | reserved name isAlias => simp [Slot.redirect, redirect, Node.redirect, Pattern.redirect, Array.map_setIfInBounds]
    | defined node =>
      obtain ⟨pattern, name?, isAlias⟩ := node
      cases pattern <;> cases name? <;> rfl

theorem declare_redirect (name : String) (isAlias : Bool) (body : NodeId) :
    (b.redirect f).declare name isAlias (f body) =
      ((b.declare name isAlias body).1, (b.declare name isAlias body).2.redirect f) := by
  unfold declare
  rw [reserve_redirect]
  rcases b.reserve name isAlias with ⟨_ | id, b⟩
  · rfl
  · dsimp only
    rw [define_redirect]
    rcases b.define id body with ⟨_ | _, b⟩ <;> rfl

theorem apply_redirect (call : Call) :
    ((b.redirect f).apply (call.redirect f)).2 = (b.apply call).2.redirect f := by
  cases call with
  | add pattern => exact congrArg Prod.snd (push_redirect f b (.defined { pattern := pattern }))
  | reserve name isAlias => exact congrArg Prod.snd (reserve_redirect f b name isAlias)
  | define rule body => exact congrArg Prod.snd (define_redirect f b rule body)
  | declare name isAlias body => exact congrArg Prod.snd (declare_redirect f b name isAlias body)

theorem after_redirect (calls : List Call) :
    (b.redirect f).after (calls.map (Call.redirect f)) = (b.after calls).redirect f := by
  induction calls generalizing b with
  | nil => rfl
  | cons call rest ih =>
    have hstep := apply_redirect f b call
    simp only [after, List.map_cons, List.foldl_cons] at ih ⊢
    rw [hstep]
    exact ih _

variable {f}

theorem checkSlot_defined {size : Nat} {node : Node} (hcomponents : ∀ c ∈ node.pattern.components, c < size)
    (hbounds : ∀ body min max, node.pattern = .repetition body min (some max) → min ≤ max) :
    checkSlot size (.defined node) = .ok node := by
  have hmissing : firstMissing? size node.pattern = none := by simpa [firstMissing?] using hcomponents
  simp only [checkSlot, hmissing]
  split
  · rename_i body min max hpattern
    rw [if_neg (Nat.not_lt.2 (hbounds body min max hpattern))]
  · rfl

theorem checkSlot_redirect {size : Nat} (hf : ∀ c < size, f c < size) {slot : Slot} {node : Node}
    (h : checkSlot size slot = .ok node) : checkSlot size (slot.redirect f) = .ok (node.redirect f) := by
  obtain ⟨rfl, hcomponents, hbounds⟩ := checkSlot_eq_ok h
  apply checkSlot_defined
  · intro c hc
    rw [Node.pattern_redirect, Pattern.components_redirect, List.mem_map] at hc
    obtain ⟨c, hc, rfl⟩ := hc
    exact hf c (hcomponents c hc)
  · intro body min max hpattern
    obtain ⟨pattern, name?, isAlias⟩ := node
    cases pattern with
    | repetition body' min' max'? =>
      obtain ⟨_, rfl, rfl⟩ := by simpa [Node.redirect, Pattern.redirect] using hpattern
      exact hbounds body' _ _ rfl
    | _ => simp [Node.redirect, Pattern.redirect] at hpattern

theorem checkSlots_redirect {size : Nat} (hf : ∀ c < size, f c < size) {slots : List Slot} {nodes : List Node}
    (h : checkSlots size slots = .ok nodes) :
    checkSlots size (slots.map (Slot.redirect f)) = .ok (nodes.map (Node.redirect f)) := by
  have hall := checkSlots_eq_ok h
  clear h
  induction hall with
  | nil => rfl
  | cons hslot _ ih =>
    rw [List.map_cons, checkSlots, checkSlot_redirect hf hslot, ih]
    rfl

end Builder

theorem Grammar.Built.redirect {f : NodeId → NodeId} {g : Grammar} (hg : g.Built) (hf : ∀ c < g.size, f c < g.size) :
    (g.redirect f).Built := by
  obtain ⟨calls, hbuild⟩ := hg
  refine ⟨calls.map (Builder.Call.redirect f), ?_⟩
  have hempty : Builder.redirect f {} = {} := by simp [Builder.redirect]
  have hafter := Builder.after_redirect f {} calls
  rw [hempty] at hafter
  rw [hafter]
  generalize Builder.after {} calls = b at hbuild
  cases hcheck : Builder.checkSlots b.slots.size b.slots.toList with
  | error e => simp [Builder.build, hcheck, Except.map] at hbuild
  | ok nodes =>
    obtain rfl : Grammar.mk nodes.toArray = g := by simpa [Builder.build, hcheck, Except.map] using hbuild
    have hsize : b.slots.size = nodes.length := by simpa using (Builder.checkSlots_eq_ok hcheck).length_eq
    have hin : ∀ c < b.slots.size, f c < b.slots.size := by simpa [Grammar.size, hsize] using hf
    have hredirect := Builder.checkSlots_redirect hin hcheck
    simp [Builder.build, Builder.redirect, hredirect, Except.map, Grammar.redirect]

end Packrat
