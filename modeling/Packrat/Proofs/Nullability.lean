import Packrat.Grammar.Nullable
import Mathlib.Data.List.Nodup
import Mathlib.Data.List.Perm.Subperm

/-!
# Nullability as a least predicate

`Grammar.Nullable` says which nodes can be seen to match the empty text, by a derivation that ends in
empty literals, lookaheads and repetitions without a minimum. The search `Grammar.isNullable` finds
every such node: a derivation of least height does not meet a node inside of itself, and so it is never
cut off by the path of the search.
-/

namespace Packrat

namespace Grammar

variable {g : Grammar}

/-- The node can match the empty text, as far as its pattern and those below it tell. -/
inductive Nullable (g : Grammar) : NodeId → Prop
  | literal {id node} (hid : g.node? id = some node) (hp : node.pattern = .literal "") : Nullable g id
  | sequence {id node items} (hid : g.node? id = some node) (hp : node.pattern = .sequence items)
      (hitems : ∀ item ∈ items, Nullable g item) : Nullable g id
  | choice {id node alternatives alternative} (hid : g.node? id = some node)
      (hp : node.pattern = .choice alternatives) (hmem : alternative ∈ alternatives)
      (halternative : Nullable g alternative) : Nullable g id
  | optional {id node body max?} (hid : g.node? id = some node)
      (hp : node.pattern = .repetition body 0 max?) : Nullable g id
  | repetition {id node body min max?} (hid : g.node? id = some node)
      (hp : node.pattern = .repetition body min max?) (hbody : Nullable g body) : Nullable g id
  | predicate {id node body expected} (hid : g.node? id = some node)
      (hp : node.pattern = .predicate body expected) : Nullable g id
  | rule {id node body} (hid : g.node? id = some node) (hp : node.pattern = .rule body)
      (hbody : Nullable g body) : Nullable g id

def NullablePattern (P : NodeId → Prop) : Pattern → Prop
  | .literal text => text = ""
  | .charClass _ => False
  | .sequence items => ∀ item ∈ items, P item
  | .choice alternatives => ∃ alternative ∈ alternatives, P alternative
  | .repetition body min _ => min = 0 ∨ P body
  | .predicate _ _ => True
  | .rule body => P body

theorem NullablePattern.mono {P Q : NodeId → Prop} (hPQ : ∀ id, P id → Q id) {pattern : Pattern}
    (h : NullablePattern P pattern) : NullablePattern Q pattern := by
  cases pattern with
  | literal text => exact h
  | charClass cls => exact h
  | sequence items => exact fun item hitem => hPQ item (h item hitem)
  | choice alternatives =>
    obtain ⟨alternative, hmem, ha⟩ := h
    exact ⟨alternative, hmem, hPQ alternative ha⟩
  | repetition body min max? => exact h.imp_right (hPQ body)
  | predicate body expected => trivial
  | rule body => exact hPQ body h

theorem Nullable.of_pattern {id : NodeId} {node : Node} (hid : g.node? id = some node)
    (h : NullablePattern g.Nullable node.pattern) : g.Nullable id := by
  cases hp : node.pattern with
  | literal text =>
    rw [hp] at h
    exact .literal hid (hp.trans (congrArg _ h))
  | charClass cls =>
    rw [hp] at h
    exact h.elim
  | sequence items =>
    rw [hp] at h
    exact .sequence hid hp h
  | choice alternatives =>
    rw [hp] at h
    obtain ⟨alternative, hmem, ha⟩ := h
    exact .choice hid hp hmem ha
  | repetition body min max? =>
    rw [hp] at h
    rcases h with rfl | hbody
    · exact .optional hid hp
    · exact .repetition hid hp hbody
  | predicate body expected => exact .predicate hid hp
  | rule body =>
    rw [hp] at h
    exact .rule hid hp h

def NullableWithin (g : Grammar) : (height : Nat) → NodeId → Prop
  | 0, _ => False
  | height + 1, id =>
    ∃ node, g.node? id = some node ∧ NullablePattern (g.NullableWithin height) node.pattern

theorem NullableWithin.succ {height : Nat} {id : NodeId} (h : g.NullableWithin height id) :
    g.NullableWithin (height + 1) id := by
  induction height generalizing id with
  | zero => exact h.elim
  | succ height ih =>
    obtain ⟨node, hid, hp⟩ := h
    exact ⟨node, hid, hp.mono fun _ => ih⟩

theorem NullableWithin.mono {height height' : Nat} (hle : height ≤ height') {id : NodeId}
    (h : g.NullableWithin height id) : g.NullableWithin height' id := by
  induction hle with
  | refl => exact h
  | step _ ih => exact ih.succ

theorem exists_nullableWithin_of_forall {items : List NodeId}
    (h : ∀ item ∈ items, ∃ height, g.NullableWithin height item) :
    ∃ height, ∀ item ∈ items, g.NullableWithin height item := by
  induction items with
  | nil => exact ⟨0, by simp⟩
  | cons item rest ih =>
    obtain ⟨a, ha⟩ := h item (by simp)
    obtain ⟨b, hb⟩ := ih fun i hi => h i (by simp [hi])
    refine ⟨max a b, fun i hi => ?_⟩
    rcases List.mem_cons.1 hi with rfl | hi
    · exact ha.mono (by omega)
    · exact (hb i hi).mono (by omega)

theorem Nullable.exists_within {id : NodeId} (h : g.Nullable id) :
    ∃ height, g.NullableWithin height id := by
  induction h with
  | literal hid hp => exact ⟨1, _, hid, by simp [hp, NullablePattern]⟩
  | sequence hid hp hitems ih =>
    obtain ⟨height, hall⟩ := exists_nullableWithin_of_forall ih
    exact ⟨height + 1, _, hid, by rw [hp]; exact hall⟩
  | choice hid hp hmem halternative ih =>
    obtain ⟨height, ha⟩ := ih
    exact ⟨height + 1, _, hid, by rw [hp]; exact ⟨_, hmem, ha⟩⟩
  | optional hid hp => exact ⟨1, _, hid, by simp [hp, NullablePattern]⟩
  | repetition hid hp hbody ih =>
    obtain ⟨height, hb⟩ := ih
    exact ⟨height + 1, _, hid, by rw [hp]; exact .inr hb⟩
  | predicate hid hp => exact ⟨1, _, hid, by simp [hp, NullablePattern]⟩
  | rule hid hp hbody ih =>
    obtain ⟨height, hb⟩ := ih
    exact ⟨height + 1, _, hid, by rw [hp]; exact hb⟩

end Grammar

namespace Verdict

variable {search : NodeId → Option Verdict}

theorem ofSequence_isSome (hs : ∀ id, (search id).isSome) (items : List NodeId) (settled : Bool) :
    (ofSequence search settled items).isSome := by
  induction items generalizing settled with
  | nil => simp [ofSequence]
  | cons item rest ih =>
    obtain ⟨verdict, hv⟩ := Option.isSome_iff_exists.1 (hs item)
    cases verdict <;> simp [ofSequence, hv, ih]

theorem ofChoice_isSome (hs : ∀ id, (search id).isSome) (alternatives : List NodeId)
    (found : Verdict) : (ofChoice search found alternatives).isSome := by
  induction alternatives generalizing found with
  | nil => simp [ofChoice]
  | cons alternative rest ih =>
    obtain ⟨verdict, hv⟩ := Option.isSome_iff_exists.1 (hs alternative)
    cases verdict <;> simp [ofChoice, hv, ih]

theorem ofPattern_isSome (hs : ∀ id, (search id).isSome) (pattern : Pattern) :
    (ofPattern search pattern).isSome := by
  cases pattern with
  | literal text => simp [ofPattern]
  | charClass cls => simp [ofPattern]
  | sequence items => exact ofSequence_isSome hs items _
  | choice alternatives => exact ofChoice_isSome hs alternatives _
  | repetition body min max? =>
    simp only [ofPattern]
    split
    · rfl
    · exact hs body
  | predicate body expected => simp [ofPattern]
  | rule body => exact hs body

theorem ofSequence_eq_nullable {items : List NodeId} {settled : Bool}
    (h : ∀ item ∈ items, search item = some .nullable) (hsettled : settled = true ∨ items ≠ []) :
    ofSequence search settled items = some .nullable := by
  induction items generalizing settled with
  | nil => simpa [ofSequence] using hsettled
  | cons item rest ih =>
    simp only [ofSequence, h item (by simp)]
    exact ih (fun i hi => h i (by simp [hi])) (.inl rfl)

theorem ofChoice_eq_nullable (hs : ∀ id, (search id).isSome) {alternatives : List NodeId}
    {found : Verdict} {alternative : NodeId} (hmem : alternative ∈ alternatives)
    (h : search alternative = some .nullable) :
    ofChoice search found alternatives = some .nullable := by
  induction alternatives generalizing found with
  | nil => simp at hmem
  | cons first rest ih =>
    rcases List.mem_cons.1 hmem with rfl | hmem
    · simp [ofChoice, h]
    · obtain ⟨verdict, hv⟩ := Option.isSome_iff_exists.1 (hs first)
      cases verdict <;> simp [ofChoice, hv, ih hmem]

theorem ofPattern_eq_nullable (hs : ∀ id, (search id).isSome) {pattern : Pattern}
    (h : Grammar.NullablePattern (fun id => search id = some .nullable) pattern) :
    ofPattern search pattern = some .nullable := by
  cases pattern with
  | literal text =>
    obtain rfl : text = "" := h
    rfl
  | charClass cls => exact h.elim
  | sequence items =>
    refine ofSequence_eq_nullable h ?_
    cases items <;> simp
  | choice alternatives =>
    obtain ⟨alternative, hmem, ha⟩ := h
    exact ofChoice_eq_nullable hs hmem ha
  | repetition body min max? =>
    simp only [ofPattern]
    split
    · rfl
    · rename_i hmin
      exact h.resolve_left hmin
  | predicate body expected => rfl
  | rule body => exact h

end Verdict

namespace Grammar

variable {g : Grammar}

/-- A path without repetitions has at most as many nodes as the grammar. -/
theorem length_le_size {path : List NodeId} (hnodup : path.Nodup) (hlt : ∀ x ∈ path, x < g.size) :
    path.length ≤ g.size := by
  have hsub : path.Subperm g.ids := hnodup.subperm fun x hx => mem_ids.2 (hlt x hx)
  simpa [ids] using hsub.length_le

/-- The search comes to an answer if its path leaves it as many nodes as its depth. -/
theorem verdict?_isSome {depth : Nat} {path : List NodeId} (hnodup : path.Nodup)
    (hlt : ∀ x ∈ path, x < g.size) (hdepth : g.size < path.length + depth) (id : NodeId) :
    (g.verdict? depth path id).isSome := by
  induction depth generalizing path id with
  | zero =>
    have := length_le_size hnodup hlt
    omega
  | succ depth ih =>
    simp only [verdict?]
    split
    · rfl
    · rename_i node hnode
      split
      · rfl
      · rename_i hpath
        have hid : id < g.size := by
          by_contra hge
          simp [node?_eq_none_iff.2 (Nat.le_of_not_lt hge)] at hnode
        refine Verdict.ofPattern_isSome (fun c => ih ?_ ?_ ?_ c) node.pattern
        · exact List.nodup_cons.2 ⟨by simpa using hpath, hnodup⟩
        · simpa [hid] using hlt
        · simp only [List.length_cons]
          omega

/-- A node is found nullable if it has a derivation of some height, and the nodes on the path have none
of that height. -/
theorem verdict?_eq_nullable {height : Nat} {depth : Nat} {path : List NodeId} {id : NodeId}
    (h : g.NullableWithin height id) (hpath : ∀ x ∈ path, ¬ g.NullableWithin height x)
    (hnodup : path.Nodup) (hlt : ∀ x ∈ path, x < g.size) (hdepth : g.size < path.length + depth) :
    g.verdict? depth path id = some .nullable := by
  induction height generalizing depth path id with
  | zero => exact h.elim
  | succ height ih =>
    by_cases hless : g.NullableWithin height id
    -- a lower derivation does as well, and the path has even less of that height
    · exact ih hless (fun x hx hn => hpath x hx hn.succ) hnodup hlt hdepth
    · have hroot := h
      obtain ⟨node, hnode, hp⟩ := hroot
      have hid : id < g.size := by
        by_contra hge
        simp [node?_eq_none_iff.2 (Nat.le_of_not_lt hge)] at hnode
      have hnot : id ∉ path := fun hmem => hpath id hmem h
      cases depth with
      | zero =>
        have := length_le_size hnodup hlt
        omega
      | succ depth =>
        have hnodup' : (id :: path).Nodup := List.nodup_cons.2 ⟨hnot, hnodup⟩
        have hlt' : ∀ x ∈ id :: path, x < g.size := by simpa [hid] using hlt
        have hdepth' : g.size < (id :: path).length + depth := by
          simp only [List.length_cons]
          omega
        have hpath' : ∀ x ∈ id :: path, ¬ g.NullableWithin height x := by
          intro x hx hn
          rcases List.mem_cons.1 hx with rfl | hx
          · exact hless hn
          · exact hpath x hx hn.succ
        simp only [verdict?, hnode, List.contains_eq_mem, hnot, decide_false, Bool.false_eq_true,
          if_false]
        exact Verdict.ofPattern_eq_nullable (verdict?_isSome hnodup' hlt' hdepth')
          (hp.mono fun c hc => ih hc hpath' hnodup' hlt' hdepth')

theorem Nullable.isNullable {id : NodeId} (h : g.Nullable id) : g.isNullable id = true := by
  obtain ⟨height, hh⟩ := h.exists_within
  simp [Grammar.isNullable,
    verdict?_eq_nullable hh (by simp) List.nodup_nil (by simp) (by simp : g.size < [].length + (g.size + 1))]

end Grammar

end Packrat
