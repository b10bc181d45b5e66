import Packrat.Proofs.Tokens

/-!
# Brackets

A definition puts brackets around every alternative of a choice and around the body of a repetition. It puts none around
an item of a sequence, and around the operand of a lookahead only if the operand itself has several parts, not if it is
a sequence of one that does. An expression is well bracketed if this leaves no brackets out that are needed. These
expressions are the ones that are read as what they mean, up to nested sequences and to sequences and choices of one.
-/

namespace Packrat

namespace Expr

/-- Induction over an expression and what it is made of. -/
theorem inductionOn {motive : Expr → Prop} (literal : ∀ text, motive (.literal text))
    (charClass : ∀ cls, motive (.charClass cls)) (rule : ∀ name, motive (.rule name))
    (missing : ∀ id, motive (.missing id))
    (sequence : ∀ items, (∀ e ∈ items, motive e) → motive (.sequence items))
    (choice : ∀ alternatives, (∀ e ∈ alternatives, motive e) → motive (.choice alternatives))
    (repetition : ∀ body min max?, motive body → motive (.repetition body min max?))
    (predicate : ∀ body expected, motive body → motive (.predicate body expected)) : (e : Expr) → motive e
  | .literal text => literal text
  | .charClass cls => charClass cls
  | .rule name => rule name
  | .missing id => missing id
  | .sequence items => sequence items fun e _ =>
      inductionOn literal charClass rule missing sequence choice repetition predicate e
  | .choice alternatives => choice alternatives fun e _ =>
      inductionOn literal charClass rule missing sequence choice repetition predicate e
  | .repetition body min max? => repetition body min max?
      (inductionOn literal charClass rule missing sequence choice repetition predicate body)
  | .predicate body expected => predicate body expected
      (inductionOn literal charClass rule missing sequence choice repetition predicate body)

/-- What is left of an expression if sequences of one give way to their item. -/
def core : Expr → Expr
  | .sequence [e] => e.core
  | e => e

/-- Whether the expression is written with a slash outside of all brackets. -/
def isSplit (e : Expr) : Bool :=
  match e.core with
  | .choice alternatives => 1 < alternatives.length
  | _ => false

mutual

/-- Whether there are brackets wherever they are needed. -/
def wellBracketed : Expr → Bool
  | .literal _ | .charClass _ | .rule _ | .missing _ => true
  | .sequence items => wellBracketedAll items && (items.length == 1 || !items.any isSplit)
  | .choice alternatives => wellBracketedAll alternatives
  | .repetition body _ _ => body.wellBracketed
  | .predicate body _ => body.wellBracketed && (body.needsBrackets || !body.core.needsBrackets)

def wellBracketedAll : List Expr → Bool
  | [] => true
  | e :: rest => e.wellBracketed && wellBracketedAll rest

end

variable {e : Expr} {es : List Expr}

theorem wellBracketedAll_iff : wellBracketedAll es ↔ ∀ e ∈ es, e.wellBracketed := by
  induction es with
  | nil => simp [wellBracketedAll]
  | cons e rest ih => simp [wellBracketedAll, ih]

theorem wellBracketed_singleton (e : Expr) : (Expr.sequence [e]).wellBracketed = e.wellBracketed := by
  simp [wellBracketed, wellBracketedAll]

theorem wellBracketed_sequence {e' : Expr} : (Expr.sequence (e :: e' :: es)).wellBracketed ↔
    ∀ x ∈ e :: e' :: es, x.wellBracketed ∧ ¬ x.isSplit := by
  have hitems : (Expr.sequence (e :: e' :: es)).wellBracketed ↔
      wellBracketedAll (e :: e' :: es) ∧ ∀ x ∈ e :: e' :: es, ¬ x.isSplit := by
    simp [wellBracketed]
  rw [hitems, wellBracketedAll_iff, forall₂_and]

theorem wellBracketed_predicate {body : Expr} {expected : Bool} : (Expr.predicate body expected).wellBracketed ↔
    body.wellBracketed ∧ (body.needsBrackets ∨ ¬ body.core.needsBrackets) := by
  simp [wellBracketed]

theorem solidAll_iff : SolidAll es ↔ ∀ e ∈ es, e.Solid := by
  induction es with
  | nil => simp [SolidAll]
  | cons e rest ih => simp [SolidAll, ih]

end Expr

/-! ## Groups -/

section

variable {gs hs : List (List Reading)}

theorem flatten_juxtapose (gs hs : List (List Reading)) : (juxtapose gs hs).flatten = gs.flatten ++ hs.flatten := by
  induction gs with
  | nil => rfl
  | cons g rest ih =>
    cases rest with
    | nil => cases hs <;> simp [juxtapose]
    | cons g' rest =>
      rw [juxtapose, List.flatten_cons, ih, ← List.append_assoc]
      rfl

theorem length_juxtapose (hgs : gs ≠ []) (hhs : hs ≠ []) :
    (juxtapose gs hs).length + 1 = gs.length + hs.length := by
  induction gs with
  | nil => exact absurd rfl hgs
  | cons g rest ih =>
    cases rest with
    | nil =>
      cases hs with
      | nil => exact absurd rfl hhs
      | cons h hs => simp [juxtapose]; omega
    | cons g' rest =>
      have hrest := ih (List.cons_ne_nil _ _)
      rw [juxtapose, List.length_cons, List.length_cons]
      omega

theorem juxtapose_nil (hgs : gs ≠ []) : juxtapose gs [[]] = gs := by
  induction gs with
  | nil => exact absurd rfl hgs
  | cons g rest ih =>
    cases rest with
    | nil => simp [juxtapose]
    | cons g' rest => rw [juxtapose, ih (List.cons_ne_nil _ _)]

theorem leaves_signFirst (expected : Bool) (gs : List (List Reading)) :
    Reading.leavesOfAll (signFirst expected gs).flatten = Reading.leavesOfAll gs.flatten := by
  match gs with
  | [] | [] :: _ | (_ :: _) :: _ => rfl

theorem solidAll_signFirst (expected : Bool) (h : Reading.SolidAll gs.flatten) :
    Reading.SolidAll (signFirst expected gs).flatten := by
  match gs, h with
  | [], h | [] :: _, h | (_ :: _) :: _, h => exact h

theorem Filled.flatten_ne_nil (h : Filled gs) : gs.flatten ≠ [] := by
  obtain ⟨hne, hall⟩ := h
  intro hnil
  cases gs with
  | nil => exact hne rfl
  | cons g rest =>
    have hg : g = [] := List.flatten_eq_nil_iff.1 hnil g List.mem_cons_self
    exact hall g List.mem_cons_self hg

end

namespace Reading

variable {r s : Reading} {rs ss : List Reading} {gs : List (List Reading)}

theorem leaves_ofGroups (gs : List (List Reading)) : (ofGroups gs).leaves = leavesOfAll gs.flatten := by
  rw [ofGroups, leaves]
  induction gs with
  | nil => rfl
  | cons g rest ih => rw [List.map_cons, leavesOfAll, ih, leaves, List.flatten_cons, leavesOfAll_append]

theorem solid_ofGroups (hfilled : Filled gs) (h : SolidAll gs.flatten) : (ofGroups gs).Solid := by
  rw [solidAll_iff] at h
  refine ⟨by simpa using hfilled.1, ?_⟩
  rw [solidAll_iff]
  intro r hr
  obtain ⟨g, hg, rfl⟩ := List.mem_map.1 hr
  refine ⟨hfilled.2 g hg, ?_⟩
  rw [solidAll_iff]
  intro x hx
  exact h x (List.mem_flatten.2 ⟨g, hg, hx⟩)

/-- What is read of a single group means the same as its items in a row. -/
theorem parts_normal_ofGroups (h : gs.length = 1) : (ofGroups gs).normal.parts = normalItems gs.flatten := by
  obtain ⟨g, rfl⟩ := List.length_eq_one_iff.1 h
  have hnormal : (ofGroups [g]).normal = normal (.sequence g) := rfl
  rw [hnormal, parts_normal_sequence, List.flatten_singleton]

theorem normal_ofGroups_of_length (h : 1 < gs.length) :
    (ofGroups gs).normal = .choice (normalAll (gs.map .sequence)) := by
  match gs, h with
  | _ :: _ :: _, _ => rfl

theorem normal_sequence_singleton (r : Reading) : (Reading.sequence [r]).normal = r.normal := by
  rw [normal, normalItems_singleton, ofItems_parts (flat_normal r)]

theorem normal_ofGroups_singleton (r : Reading) : (ofGroups [[r]]).normal = r.normal :=
  normal_sequence_singleton r

theorem ofAlternatives_inj (h : rs.length = ss.length) : ofAlternatives rs = ofAlternatives ss ↔ rs = ss := by
  refine ⟨?_, congrArg ofAlternatives⟩
  match rs, ss, h with
  | [], [], _ => simp
  | [r], [s], _ => simp [ofAlternatives]
  | _ :: _ :: _, _ :: _ :: _, _ => simp [ofAlternatives]

theorem normalItems_flatMap {α : Type} (as : List α) (f : α → List Reading) :
    normalItems (as.flatMap f) = as.flatMap fun a => normalItems (f a) := by
  simp [normalItems_eq_flatMap, List.flatMap_assoc]

theorem parts_normal_ne_nil (h : r.Solid) : r.normal.parts ≠ [] := by
  intro hnil
  have hleaves := leavesOfAll_parts r.normal
  have hpos := leaves_pos r h
  rw [hnil, leavesOfAll, leaves_normal] at hleaves
  omega

/-- Lists of readings can be taken apart by the number of their leaves. -/
theorem append_inj_of_leaves {rs' ss' : List Reading} (hrs : SolidAll rs) (hss : SolidAll ss)
    (hleaves : leavesOfAll rs = leavesOfAll ss) (h : rs ++ rs' = ss ++ ss') : rs = ss ∧ rs' = ss' := by
  induction rs generalizing ss with
  | nil =>
    cases ss with
    | nil => exact ⟨rfl, h⟩
    | cons s ss =>
      have hpos := leavesOfAll_pos (s :: ss) (List.cons_ne_nil _ _) hss
      rw [leavesOfAll] at hleaves
      omega
  | cons r rs ih =>
    cases ss with
    | nil =>
      have hpos := leavesOfAll_pos (r :: rs) (List.cons_ne_nil _ _) hrs
      rw [leavesOfAll.eq_1] at hleaves
      omega
    | cons s ss =>
      obtain ⟨rfl, htail⟩ := List.cons.inj h
      have hrest : leavesOfAll rs = leavesOfAll ss := Nat.add_left_cancel hleaves
      obtain ⟨rfl, rfl⟩ := ih hrs.2 hss.2 hrest htail
      exact ⟨rfl, rfl⟩

/-- Where the parts have as many leaves on both sides, they can be compared one by one. -/
theorem flatMap_inj_of_leaves {α : Type} {as : List α} {f g : α → List Reading} (hf : ∀ a ∈ as, SolidAll (f a))
    (hg : ∀ a ∈ as, SolidAll (g a)) (hleaves : ∀ a ∈ as, leavesOfAll (f a) = leavesOfAll (g a)) :
    as.flatMap f = as.flatMap g ↔ ∀ a ∈ as, f a = g a := by
  refine ⟨?_, List.flatMap_congr⟩
  intro h
  induction as with
  | nil => simp
  | cons a as ih =>
    rw [List.forall_mem_cons] at hf hg hleaves ⊢
    rw [List.flatMap_cons, List.flatMap_cons] at h
    obtain ⟨ha, hrest⟩ := append_inj_of_leaves hf.1 hg.1 hleaves.1 h
    exact ⟨ha, ih hf.2 hg.2 hleaves.2 hrest⟩

end Reading

/-! ## The groups of an expression -/

namespace Expr

open Reading (leavesOfAll ofGroups normalItems)

variable {e : Expr} {es : List Expr}

theorem flatten_itemGroups (es : List Expr) : (itemGroups es).flatten = es.flatMap fun e => e.groups.flatten := by
  induction es with
  | nil => rfl
  | cons e rest ih => rw [itemGroups, flatten_juxtapose, ih, List.flatMap_cons]

theorem length_itemGroups (h : SolidAll es) :
    (itemGroups es).length = 1 ↔ ∀ e ∈ es, e.groups.length = 1 := by
  induction es with
  | nil => simp [itemGroups]
  | cons e rest ih =>
    have hgroups := (filled_groups e h.1).1
    have hrest := itemGroups_ne_nil rest h.2
    have hlength := length_juxtapose hgroups hrest
    have hgroupsPos := List.length_pos_iff.2 hgroups
    have hrestPos := List.length_pos_iff.2 hrest
    rw [List.forall_mem_cons, ← ih h.2, itemGroups]
    omega

theorem alternativeGroups_eq_map (es : List Expr) : alternativeGroups es = es.map fun e => [ofGroups e.groups] := by
  induction es with
  | nil => rfl
  | cons e rest ih => rw [alternativeGroups, ih, List.map_cons]

theorem groups_singleton (h : e.Solid) : groups (.sequence [e]) = e.groups := by
  rw [groups, itemGroups, itemGroups, juxtapose_nil (filled_groups e h).1]

theorem leaves_groups (e : Expr) : leavesOfAll e.groups.flatten = e.reading.leaves := by
  induction e using inductionOn with
  | literal _ | charClass _ | rule _ | missing _ => rfl
  | sequence items ih =>
    rw [groups, flatten_itemGroups, reading, Reading.leaves, readingAll_eq_map]
    induction items with
    | nil => rfl
    | cons e rest ihs =>
      rw [List.forall_mem_cons] at ih
      rw [List.flatMap_cons, Reading.leavesOfAll_append, ihs ih.2, ih.1, List.map_cons, leavesOfAll]
  | choice alternatives ih =>
    rw [groups, alternativeGroups_eq_map, reading, Reading.leaves, readingAll_eq_map]
    induction alternatives with
    | nil => rfl
    | cons e rest ihs =>
      rw [List.forall_mem_cons] at ih
      rw [List.map_cons, List.flatten_cons, Reading.leavesOfAll_append, ihs ih.2, Reading.leavesOfAll_singleton,
        Reading.leaves_ofGroups, ih.1, List.map_cons, leavesOfAll]
  | repetition body min max? ih =>
    rw [groups, List.flatten_singleton, Reading.leavesOfAll_singleton, Reading.leaves, Reading.leaves_ofGroups, ih]
    rfl
  | predicate body expected ih =>
    rw [groups, reading, Reading.leaves, ← ih]
    split
    · rw [List.flatten_singleton, Reading.leavesOfAll_singleton, Reading.leaves, Reading.leaves_ofGroups]
    · exact leaves_signFirst expected body.groups

theorem solidAll_groups (h : e.Solid) : Reading.SolidAll e.groups.flatten := by
  induction e using inductionOn with
  | literal _ | charClass _ | rule _ | missing _ => exact ⟨trivial, trivial⟩
  | sequence items ih =>
    rw [groups, flatten_itemGroups, Reading.solidAll_iff]
    intro r hr
    obtain ⟨e, he, hmem⟩ := List.mem_flatMap.1 hr
    exact Reading.solidAll_iff.1 (ih e he (solidAll_iff.1 h.2 e he)) r hmem
  | choice alternatives ih =>
    rw [groups, alternativeGroups_eq_map, Reading.solidAll_iff]
    intro r hr
    obtain ⟨e, he, hr⟩ : ∃ e ∈ alternatives, r = ofGroups e.groups := by simpa using hr
    have hsolid := solidAll_iff.1 h.2 e he
    rw [hr]
    exact Reading.solid_ofGroups (filled_groups e hsolid) (ih e he hsolid)
  | repetition body min max? ih => exact ⟨Reading.solid_ofGroups (filled_groups body h) (ih h), trivial⟩
  | predicate body expected ih =>
    rw [groups]
    split
    · exact ⟨Reading.solid_ofGroups (filled_groups body h) (ih h), trivial⟩
    · exact solidAll_signFirst expected (ih h)

theorem solid_reading (h : e.Solid) : e.reading.Solid := by
  induction e using inductionOn with
  | literal _ | charClass _ | rule _ | missing _ => trivial
  | sequence items ih | choice items ih =>
    rw [reading, readingAll_eq_map]
    refine ⟨by simpa using h.1, Reading.solidAll_iff.2 ?_⟩
    intro r hr
    obtain ⟨e, he, rfl⟩ := List.mem_map.1 hr
    exact ih e he (solidAll_iff.1 h.2 e he)
  | repetition body min max? ih => exact ih h
  | predicate body expected ih => exact ih h

theorem groups_core (h : e.Solid) : e.core.groups = e.groups := by
  induction e using inductionOn with
  | sequence items ih =>
    match items, h.2 with
    | [], _ | _ :: _ :: _, _ => rfl
    | [e], hsolid => rw [core, groups_singleton hsolid.1, ih e List.mem_cons_self hsolid.1]
  | _ => rfl

/-! ## Brackets that are left out -/

/-- Where slashes are outside of all brackets there are several groups. -/
theorem not_isSplit_of_length (h : e.Solid) (hlength : e.groups.length = 1) : ¬ e.isSplit := by
  intro hsplit
  rw [← groups_core h] at hlength
  unfold isSplit at hsplit
  split at hsplit
  · rename_i alternatives hcore
    rw [hcore, groups, alternativeGroups_eq_map, List.length_map] at hlength
    simp [hlength] at hsplit
  · exact Bool.false_ne_true hsplit

theorem solid_core (h : e.Solid) : e.core.Solid := by
  induction e using inductionOn with
  | sequence items ih =>
    match items, h with
    | [], h | _ :: _ :: _, h => exact h
    | [e], h => exact ih e List.mem_cons_self h.2.1
  | _ => exact h

theorem one_lt_length_flatten_itemGroups {e' : Expr} (h : SolidAll (e :: e' :: es)) :
    1 < (itemGroups (e :: e' :: es)).flatten.length := by
  have he := List.length_pos_iff.2 (filled_groups e h.1).flatten_ne_nil
  have he' := List.length_pos_iff.2 (filled_groups e' h.2.1).flatten_ne_nil
  rw [flatten_itemGroups, List.flatMap_cons, List.flatMap_cons, List.length_append, List.length_append]
  omega

/-- Only an expression that needs no brackets is read as a single item. -/
theorem not_needsBrackets_of_groups (h : e.Solid) {r : Reading} (hgroups : e.groups = [[r]]) :
    ¬ e.needsBrackets := by
  intro hneeds
  cases e with
  | sequence items =>
    match items, hneeds with
    | e :: e' :: rest, _ =>
      have hlength := one_lt_length_flatten_itemGroups h.2
      rw [groups] at hgroups
      rw [hgroups] at hlength
      exact Nat.lt_irrefl 1 hlength
  | choice alternatives =>
    match alternatives, hneeds with
    | _ :: _ :: _, _ => simp [groups, alternativeGroups] at hgroups
  | _ => exact Bool.false_ne_true hneeds

/-- A well bracketed expression that is left without brackets for good reason is read as a single item. -/
theorem exists_groups_eq (h : e.Solid) (hwell : e.wellBracketed) (hneeds : ¬ e.core.needsBrackets) :
    ∃ r, e.groups = [[r]] := by
  induction e using inductionOn with
  | literal _ | charClass _ | rule _ | missing _ | repetition _ _ _ _ => exact ⟨_, rfl⟩
  | sequence items ih =>
    match items, h, hwell, hneeds with
    | [], h, _, _ => exact absurd rfl h.1
    | [e], h, hwell, hneeds =>
      rw [wellBracketed_singleton] at hwell
      rw [groups_singleton h.2.1]
      exact ih e List.mem_cons_self h.2.1 hwell hneeds
    | _ :: _ :: _, _, _, hneeds => simp [core, needsBrackets] at hneeds
  | choice alternatives ih =>
    match alternatives, h, hneeds with
    | [], h, _ => exact absurd rfl h.1
    | [e], _, _ => exact ⟨_, rfl⟩
    | _ :: _ :: _, _, hneeds => simp [core, needsBrackets] at hneeds
  | predicate body expected ih =>
    rw [groups]
    split
    · exact ⟨_, rfl⟩
    · rename_i hbrackets
      rw [wellBracketed_predicate, or_iff_right hbrackets] at hwell
      obtain ⟨r, hr⟩ := ih h hwell.1 hwell.2
      exact ⟨_, by rw [hr]; rfl⟩

/-- A well bracketed expression makes a single group unless slashes are outside of all brackets. -/
theorem length_groups (h : e.Solid) (hwell : e.wellBracketed) (hsplit : ¬ e.isSplit) : e.groups.length = 1 := by
  induction e using inductionOn with
  | literal _ | charClass _ | rule _ | missing _ | repetition _ _ _ _ => rfl
  | sequence items ih =>
    match items, h, hwell, hsplit with
    | [], h, _, _ => exact absurd rfl h.1
    | [e], h, hwell, hsplit =>
      rw [wellBracketed_singleton] at hwell
      rw [groups_singleton h.2.1]
      exact ih e List.mem_cons_self h.2.1 hwell hsplit
    | e :: e' :: rest, h, hwell, _ =>
      rw [groups, length_itemGroups h.2]
      intro x hx
      obtain ⟨hitem, hsplit⟩ := wellBracketed_sequence.1 hwell x hx
      exact ih x hx (solidAll_iff.1 h.2 x hx) hitem hsplit
  | choice alternatives ih =>
    match alternatives, h, hsplit with
    | [], h, _ => exact absurd rfl h.1
    | [e], _, _ => rfl
    | _ :: _ :: _, _, hsplit => simp [isSplit, core] at hsplit
  | predicate body expected ih =>
    rw [groups]
    split
    · rfl
    · rename_i hbrackets
      rw [wellBracketed_predicate, or_iff_right hbrackets] at hwell
      obtain ⟨r, hr⟩ := exists_groups_eq (e := body) h hwell.1 hwell.2
      rw [hr]
      rfl

/-! ## What is read as it is meant -/

/-- What is read of the expression means the same as the expression. -/
def ReadsBack (e : Expr) : Prop := (ofGroups e.groups).normal = e.reading.normal

/-- Where there is a single group its items can be compared with the parts of the expression. -/
theorem readsBack_iff_parts (hlength : e.groups.length = 1) :
    e.ReadsBack ↔ normalItems e.groups.flatten = e.reading.normal.parts := by
  rw [ReadsBack, Reading.normal_eq_iff, Reading.parts_normal_ofGroups hlength]

theorem normal_reading_sequence (items : List Expr) :
    (reading (.sequence items)).normal.parts = items.flatMap fun e => e.reading.normal.parts := by
  rw [reading, Reading.parts_normal_sequence, readingAll_eq_map, Reading.normalItems_eq_flatMap, List.flatMap_map]

theorem one_lt_length_parts {e' : Expr} (h : SolidAll (e :: e' :: es)) :
    1 < (reading (.sequence (e :: e' :: es))).normal.parts.length := by
  have hpos : ∀ x : Expr, x.Solid → 0 < x.reading.normal.parts.length := by
    intro x hx
    exact List.length_pos_iff.2 (Reading.parts_normal_ne_nil (solid_reading hx))
  have he := hpos e h.1
  have he' := hpos e' h.2.1
  rw [normal_reading_sequence, List.flatMap_cons, List.flatMap_cons, List.length_append, List.length_append]
  omega

/-- A sequence of several items is read as it is meant if each of the items is, and makes a single group. -/
theorem readsBack_sequence {e' : Expr} (h : SolidAll (e :: e' :: es)) :
    (Expr.sequence (e :: e' :: es)).ReadsBack ↔
      ∀ x ∈ e :: e' :: es, x.groups.length = 1 ∧ x.ReadsBack := by
  have hsolid := solidAll_iff.1 h
  by_cases hlength : (itemGroups (e :: e' :: es)).length = 1
  · have hone := (length_itemGroups h).1 hlength
    rw [readsBack_iff_parts (e := .sequence (e :: e' :: es)) hlength, normal_reading_sequence, groups, flatten_itemGroups,
      Reading.normalItems_flatMap, Reading.flatMap_inj_of_leaves]
    · apply forall₂_congr
      intro x hx
      rw [readsBack_iff_parts (hone x hx), and_iff_right (hone x hx)]
    · intro x hx
      exact Reading.solidAll_normalItems _ (solidAll_groups (hsolid x hx))
    · intro x hx
      exact Reading.solidAll_parts (Reading.solid_normal _ (solid_reading (hsolid x hx)))
    · intro x _
      rw [Reading.leavesOfAll_normalItems, leaves_groups, Reading.leavesOfAll_parts, Reading.leaves_normal]
  · constructor
    · intro hreads
      have hseveral : 1 < (itemGroups (e :: e' :: es)).length := by
        have hpos := List.length_pos_iff.2 (itemGroups_ne_nil _ h)
        omega
      have hparts := one_lt_length_parts h
      rw [← hreads, groups, Reading.normal_ofGroups_of_length hseveral] at hparts
      exact absurd hparts (Nat.lt_irrefl 1)
    · intro hall
      exact absurd ((length_itemGroups h).2 fun x hx => (hall x hx).1) hlength

theorem readsBack_singleton (h : e.Solid) : (Expr.sequence [e]).ReadsBack ↔ e.ReadsBack := by
  rw [ReadsBack, groups_singleton h, reading, readingAll, readingAll, Reading.normal_sequence_singleton, ReadsBack]

theorem readsBack_choice (alternatives : List Expr) :
    (Expr.choice alternatives).ReadsBack ↔ ∀ e ∈ alternatives, e.ReadsBack := by
  have hleft : (ofGroups (groups (.choice alternatives))).normal =
      .ofAlternatives (alternatives.map fun e => (ofGroups e.groups).normal) := by
    rw [groups, alternativeGroups_eq_map, ofGroups, Reading.normal, Reading.normalAll_eq_map, List.map_map, List.map_map]
    congr 2
    funext e
    exact Reading.normal_sequence_singleton _
  have hright : (reading (.choice alternatives)).normal =
      .ofAlternatives (alternatives.map fun e => e.reading.normal) := by
    rw [reading, Reading.normal, Reading.normalAll_eq_map, readingAll_eq_map, List.map_map]
    rfl
  rw [ReadsBack, hleft, hright, Reading.ofAlternatives_inj (by simp), List.map_inj_left]
  rfl

theorem readsBack_repetition (body : Expr) (min : Nat) (max? : Option Nat) :
    (Expr.repetition body min max?).ReadsBack ↔ body.ReadsBack := by
  rw [ReadsBack, groups, Reading.normal_ofGroups_singleton, reading, Reading.normal, Reading.normal]
  simp [ReadsBack]

/-- A lookahead is read as it is meant if its operand is, and stands in brackets or is a single item. -/
theorem readsBack_predicate {body : Expr} (h : body.Solid) (expected : Bool) :
    (Expr.predicate body expected).ReadsBack ↔
      body.ReadsBack ∧ (body.needsBrackets ∨ ∃ r, body.groups = [[r]]) := by
  have hmeant : (reading (.predicate body expected)).normal = .predicate body.reading.normal expected := rfl
  by_cases hneeds : body.needsBrackets
  · rw [ReadsBack, groups, if_pos hneeds, Reading.normal_ofGroups_singleton, hmeant, Reading.normal]
    simp [ReadsBack, hneeds]
  · rw [ReadsBack, groups, if_neg hneeds, hmeant]
    have hfilled := filled_groups body h
    have hsolid := solidAll_groups h
    match hgroups : body.groups, hfilled with
    | [], hfilled => exact absurd rfl hfilled.1
    | [] :: _, hfilled => exact absurd rfl (hfilled.2 [] List.mem_cons_self)
    | [[r]], _ =>
      rw [signFirst, Reading.normal_ofGroups_singleton, Reading.normal, ReadsBack, hgroups,
        Reading.normal_ofGroups_singleton]
      simp
    | [r :: r' :: rest], _ =>
      rw [hgroups] at hsolid
      have hrest := Reading.normalItems_ne_nil (List.cons_ne_nil r' rest) (by simpa using hsolid.2)
      constructor
      · intro hreads
        have hparts : (ofGroups (signFirst expected [r :: r' :: rest])).normal.parts =
            normalItems (signFirst expected [r :: r' :: rest]).flatten := Reading.parts_normal_ofGroups rfl
        rw [hreads, signFirst, List.flatten_singleton, Reading.normalItems] at hparts
        have hnil : normalItems (r' :: rest) = [] := (List.cons.inj hparts).2.symm
        exact absurd hnil hrest
      · simp [hneeds]
    | (r :: g) :: g' :: rest, _ =>
      simp [signFirst, Reading.normal_ofGroups_of_length, hneeds]

/-- An expression is read as it is meant if and only if it is well bracketed. -/
theorem readsBack_iff (h : e.Solid) : e.ReadsBack ↔ e.wellBracketed := by
  induction e using inductionOn with
  | literal _ | charClass _ | rule _ | missing _ => exact iff_of_true rfl rfl
  | sequence items ih =>
    match items, h with
    | [], h => exact absurd rfl h.1
    | [e], h => rw [readsBack_singleton h.2.1, wellBracketed_singleton, ih e List.mem_cons_self h.2.1]
    | e :: e' :: es, h =>
      rw [readsBack_sequence h.2, wellBracketed_sequence]
      apply forall₂_congr
      intro x hx
      have hsolid := solidAll_iff.1 h.2 x hx
      rw [ih x hx hsolid, and_comm, and_congr_right_iff]
      intro hwell
      exact ⟨not_isSplit_of_length hsolid, length_groups hsolid hwell⟩
  | choice alternatives ih =>
    rw [readsBack_choice, wellBracketed, wellBracketedAll_iff]
    apply forall₂_congr
    intro e he
    exact ih e he (solidAll_iff.1 h.2 e he)
  | repetition body min max? ih => rw [readsBack_repetition, ih h, wellBracketed]
  | predicate body expected ih =>
    have hbody : body.Solid := h
    rw [readsBack_predicate hbody, ih h, wellBracketed_predicate, and_congr_right_iff]
    intro hwell
    apply or_congr_right
    constructor
    · rintro ⟨r, hr⟩
      have hcore := groups_core (e := body) h
      exact not_needsBrackets_of_groups (solid_core h) (hcore.trans hr)
    · exact exists_groups_eq h hwell

end Expr

end Packrat
