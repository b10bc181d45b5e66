import Packrat.Match.Tree
import Packrat.Proofs.Depth

/-!
# Outlines of trees

The outline of a tree is what is left of it when every hidden match below the root gives way to what is below it. Two
trees with the same outline look the same in the visible view. What a rule makes of the match of its body keeps the
outline of that match, and it does so in the same way whether or not the match is wrapped in further hidden ones.
-/

namespace Packrat

namespace Match

mutual

/-- The match without the hidden matches below it. -/
def outline : Match → Match
  | ⟨success, start, stop, text, status, origin?, children⟩ =>
    ⟨success, start, stop, text, status, origin?, outlineAll children⟩

def outlineAll : List Match → List Match
  | [] => []
  | m :: rest => (if m.hidden then (outline m).children else [outline m]) ++ outlineAll rest

end

variable {m n c d : Match}

theorem outline_eq (m : Match) : m.outline = { m with children := outlineAll m.children } := by
  cases m
  rfl

theorem outlineAll_cons (m : Match) (rest : List Match) :
    outlineAll (m :: rest) = outlineAll [m] ++ outlineAll rest := by
  simp [outlineAll]

theorem outlineAll_append (ms ns : List Match) : outlineAll (ms ++ ns) = outlineAll ms ++ outlineAll ns := by
  induction ms with
  | nil => rfl
  | cons m rest ih => rw [List.cons_append, outlineAll_cons, ih, outlineAll_cons m rest, List.append_assoc]

theorem outlineAll_of_hidden (h : m.hidden = true) : outlineAll [m] = outlineAll m.children := by
  simp [outlineAll, h, outline_eq]

theorem outlineAll_of_visible (h : m.hidden = false) : outlineAll [m] = [m.outline] := by
  simp [outlineAll, h]

/-! ## What stands for a match in the visible tree -/

theorem unveiledAll_append (ms ns : List Match) : unveiledAll (ms ++ ns) = unveiledAll ms ++ unveiledAll ns := by
  induction ms with
  | nil => rfl
  | cons m rest ih => rw [List.cons_append, unveiledAll, ih, unveiledAll, List.append_assoc]

theorem unveiledAll_singleton (m : Match) : unveiledAll [m] = m.unveiled := List.append_nil _

theorem visibleChildren_push (m child : Match) :
    (m.push child).visibleChildren = m.visibleChildren ++ child.unveiled := by
  rw [visibleChildren, children_push, unveiledAll_append, unveiledAll_singleton]
  rfl

/-! ## Views

Both visible views can be read off the outline. -/

theorem linesAll_append (view : View) (depth : Nat) (ms ns : List Match) :
    linesAll view depth (ms ++ ns) = linesAll view depth ms ++ linesAll view depth ns := by
  induction ms with
  | nil => simp [linesAll]
  | cons m rest ih => rw [List.cons_append, linesAll, ih, linesAll, String.append_assoc]

theorem jsonNodesAll_append (view : View) (ms ns : List Match) :
    jsonNodesAll view (ms ++ ns) = jsonNodesAll view ms ++ jsonNodesAll view ns := by
  induction ms with
  | nil => rfl
  | cons m rest ih => rw [List.cons_append, jsonNodesAll, ih, jsonNodesAll, List.append_assoc]

mutual

theorem linesAll_outlineAll_singleton :
    ∀ (m : Match) (depth : Nat), linesAll .visible depth (outlineAll [m]) = lines .visible depth m
  | ⟨success, start, stop, text, status, origin?, children⟩, depth => by
    let m : Match := ⟨success, start, stop, text, status, origin?, children⟩
    cases homits : View.visible.omits m with
    | true =>
      rw [outlineAll_of_hidden homits, lines_of_omits homits]
      exact linesAll_outlineAll children depth
    | false =>
      have houtline : lines .visible depth m.outline =
          m.line depth ++ linesAll .visible (depth + 1) (outlineAll children) := if_neg (Bool.eq_false_iff.1 homits)
      rw [outlineAll_of_visible homits, lines_of_not_omits homits, linesAll, linesAll, houtline, String.append_empty,
        linesAll_outlineAll children]

theorem linesAll_outlineAll :
    ∀ (ms : List Match) (depth : Nat), linesAll .visible depth (outlineAll ms) = linesAll .visible depth ms
  | [], _ => rfl
  | m :: rest, depth => by
    rw [outlineAll_cons, linesAll_append, linesAll, linesAll_outlineAll_singleton m, linesAll_outlineAll rest]

end

mutual

theorem jsonNodesAll_outlineAll_singleton :
    ∀ m : Match, jsonNodesAll .visible (outlineAll [m]) = jsonNodes .visible m
  | ⟨success, start, stop, text, status, origin?, children⟩ => by
    let m : Match := ⟨success, start, stop, text, status, origin?, children⟩
    cases homits : View.visible.omits m with
    | true =>
      rw [outlineAll_of_hidden homits, jsonNodes_of_omits homits]
      exact jsonNodesAll_outlineAll children
    | false =>
      have houtline : jsonNodes .visible m.outline =
          [m.jsonObject (jsonNodesAll .visible (outlineAll children))] := if_neg (Bool.eq_false_iff.1 homits)
      rw [outlineAll_of_visible homits, jsonNodes_of_not_omits homits, jsonNodesAll, jsonNodesAll, houtline,
        List.append_nil, jsonNodesAll_outlineAll children]

theorem jsonNodesAll_outlineAll :
    ∀ ms : List Match, jsonNodesAll .visible (outlineAll ms) = jsonNodesAll .visible ms
  | [] => rfl
  | m :: rest => by
    rw [outlineAll_cons, jsonNodesAll_append, jsonNodesAll, jsonNodesAll_outlineAll_singleton m,
      jsonNodesAll_outlineAll rest]

end

/-! ## Matches with the same outline -/

/-- The matches differ at most in the nodes that they come from and in what is hidden below them. A match without
children is told apart from one with children that are all hidden, since it is extended in another way. -/
structure SameOutline (m n : Match) : Prop where
  success_eq : m.success = n.success
  start_eq : m.start = n.start
  stop_eq : m.stop = n.stop
  text_eq : m.text = n.text
  status_eq : m.status = n.status
  outlineAll_eq : outlineAll m.children = outlineAll n.children
  isEmpty_eq : m.children.isEmpty = n.children.isEmpty

/-- The matches come from the same kind of node, and differ at most in what is hidden below them. -/
structure Resembles (m n : Match) : Prop extends SameOutline m n where
  origin?_eq : m.origin? = n.origin?

theorem SameOutline.refl (m : Match) : m.SameOutline m := ⟨rfl, rfl, rfl, rfl, rfl, rfl, rfl⟩

theorem Resembles.refl (m : Match) : m.Resembles m := ⟨.refl m, rfl⟩

theorem Resembles.hidden_eq (h : m.Resembles n) : m.hidden = n.hidden := by
  rw [hidden, hidden, h.origin?_eq]

theorem Resembles.label_eq (h : m.Resembles n) : m.label = n.label := by
  rw [label, label, h.origin?_eq]

theorem Resembles.outline_eq (h : m.Resembles n) : m.outline = n.outline := by
  cases m
  cases n
  obtain ⟨⟨rfl, rfl, rfl, rfl, rfl, hchildren, _⟩, rfl⟩ := h
  rw [outline, outline]
  exact congrArg _ hchildren

theorem Resembles.outlineAll_singleton_eq (h : m.Resembles n) : outlineAll [m] = outlineAll [n] := by
  simp only [outlineAll, h.hidden_eq, h.outline_eq]

theorem Resembles.tree_eq (h : m.Resembles n) : m.tree .visible = n.tree .visible := by
  have hbelow : ∀ depth, linesAll .visible depth m.children = linesAll .visible depth n.children := by
    intro depth
    rw [← linesAll_outlineAll, h.outlineAll_eq, linesAll_outlineAll]
  have hline : m.line 0 = n.line 0 := by
    simp only [line, h.label_eq, h.text_eq, h.status_eq, h.start_eq, h.stop_eq]
  have homits : View.visible.omitsRoot m = View.visible.omitsRoot n := by
    simp only [View.omitsRoot, View.omits, h.hidden_eq, h.success_eq]
  simp only [tree, homits, hbelow, hline]

theorem Resembles.toJson_eq (h : m.Resembles n) : m.toJson .visible = n.toJson .visible := by
  have hbelow : jsonNodesAll .visible m.children = jsonNodesAll .visible n.children := by
    rw [← jsonNodesAll_outlineAll, h.outlineAll_eq, jsonNodesAll_outlineAll]
  have hobject : ∀ below, m.jsonObject below = n.jsonObject below := by
    intro below
    simp only [jsonObject, h.label_eq, h.text_eq, h.status_eq, h.start_eq, h.stop_eq]
  have homits : View.visible.omitsRoot m = View.visible.omitsRoot n := by
    simp only [View.omitsRoot, View.omits, h.hidden_eq, h.success_eq]
  simp only [toJson, homits, hbelow, hobject]

/-! ## Steps of matching -/

theorem SameOutline.stamp (h : m.SameOutline n) (origin : Origin) :
    (m.stamp origin).Resembles (n.stamp origin) :=
  ⟨⟨h.success_eq, h.start_eq, h.stop_eq, h.text_eq, h.status_eq, h.outlineAll_eq, h.isEmpty_eq⟩, rfl⟩

/-- A child counts with its span and text, and with what stands for it in the outline. -/
theorem SameOutline.push (h : m.SameOutline n) (hstart : c.start = d.start) (hstop : c.stop = d.stop)
    (htext : c.text = d.text) (houtline : outlineAll [c] = outlineAll [d]) :
    (m.push c).SameOutline (n.push d) where
  success_eq := h.success_eq
  start_eq := by
    dsimp only [Match.push]
    rw [h.isEmpty_eq, hstart, h.start_eq]
  stop_eq := hstop
  text_eq := by
    dsimp only [Match.push]
    rw [h.isEmpty_eq, htext, h.text_eq]
  status_eq := h.status_eq
  outlineAll_eq := by
    rw [children_push, children_push, outlineAll_append, outlineAll_append, h.outlineAll_eq, houtline]
  isEmpty_eq := by
    have hpush : ∀ m c : Match, (m.push c).children.isEmpty = false := by
      intro m c
      rw [children_push]
      cases m.children <;> rfl
    rw [hpush, hpush]

theorem Resembles.likeness : Likeness Resembles where
  refl := .refl
  success_eq h := h.success_eq
  start_eq h := h.start_eq
  stop_eq h := h.stop_eq
  hidden_eq h := h.hidden_eq
  push h hc := ⟨h.toSameOutline.push hc.start_eq hc.stop_eq hc.text_eq hc.outlineAll_singleton_eq, h.origin?_eq⟩
  stamp origin h := h.toSameOutline.stamp origin
  status_eq h := h.status_eq
  withStatus _ h :=
    ⟨⟨h.success_eq, h.start_eq, h.stop_eq, h.text_eq, rfl, h.outlineAll_eq, h.isEmpty_eq⟩, h.origin?_eq⟩

/-! ## Bodies of rules -/

theorem ofBody_of_hidden (h : m.hidden = true) : m.ofBody = m := by
  simp [ofBody, h]

@[simp] theorem success_ofBody (m : Match) : m.ofBody.success = m.success := by
  unfold ofBody
  split
  · rename_i h
    exact (Bool.and_eq_true_iff.1 h).1.symm
  · rfl

@[simp] theorem start_ofBody (m : Match) : m.ofBody.start = m.start := by
  unfold ofBody
  split <;> rfl

@[simp] theorem stop_ofBody (m : Match) : m.ofBody.stop = m.stop := by
  unfold ofBody
  split <;> rfl

@[simp] theorem text_ofBody (m : Match) : m.ofBody.text = m.text := by
  unfold ofBody
  split <;> rfl

/-- A body is in the outline of its rule what it is in any other outline. -/
theorem outlineAll_ofBody (h : m.success = true) : outlineAll m.ofBody.children = outlineAll [m] := by
  cases hhidden : m.hidden with
  | true => rw [ofBody_of_hidden hhidden, outlineAll_of_hidden hhidden]
  | false =>
    have hbody : m.ofBody = (Match.empty m.start).push m := by simp [ofBody, h, hhidden]
    rw [hbody, children_push, children_empty, List.nil_append]

/-- As far as outlines go, all that a pattern sees of a successful component is what a rule would make of it. -/
theorem SameOutline.passage : Passage (fun c d => c.ofBody.SameOutline d.ofBody) SameOutline where
  refl_call c := .refl c.ofBody
  refl := .refl
  success_eq h := by simpa using h.success_eq
  stop_eq h := by simpa using h.stop_eq
  push {m n c d} h hc hsuccess := by
    have hsuccess' : d.success = true := by simpa [hsuccess] using hc.success_eq.symm
    apply h.push
    · simpa using hc.start_eq
    · simpa using hc.stop_eq
    · simpa using hc.text_eq
    · rw [← outlineAll_ofBody hsuccess, hc.outlineAll_eq, outlineAll_ofBody hsuccess']
  ofBody h := h

theorem Resembles.ofBody (h : m.Resembles n) : m.ofBody.SameOutline n.ofBody :=
  (Resembles.likeness.toCongruence.passage.ofBody h).toSameOutline

/-- A rule that is hidden itself is, as a component, no different from its body. -/
theorem SameOutline.ofBody_stamp (h : m.ofBody.SameOutline n.ofBody) {origin : Origin} (hhidden : origin.hidden = true) :
    (m.ofBody.stamp origin).ofBody.SameOutline n.ofBody := by
  rw [ofBody_of_hidden (m := m.ofBody.stamp origin) hhidden]
  exact ⟨h.success_eq, h.start_eq, h.stop_eq, h.text_eq, h.status_eq, h.outlineAll_eq, h.isEmpty_eq⟩

end Match

end Packrat
