import Packrat.Proofs.Sound

/-!
# What each form of pattern answers

If the calls inside a pattern are answered as they should be, so is the pattern. A call inside need
only be considered in a session that is met during the match, and, as long as no character has been
taken, only if it is a leftmost component. The same statements serve for runs that may meet their bound
and for runs that may not: the loops themselves never do.
-/

namespace Packrat

namespace Pattern

open Session

variable {g : Grammar} {pending : Pending} {bound null : Prop} {call : Evaluator} {id : NodeId}
  {s t : Session}

def Answers (g : Grammar) (pending : Pending) (bound : Prop) (call : Evaluator) (c : NodeId)
    (t : Session) : Prop :=
  (call c t).Yields False bound fun a => Answered g pending (g.Nullable c) t a.1 a.2

def AnswersInside (g : Grammar) (pending : Pending) (bound : Prop) (call : Evaluator) (id : NodeId)
    (s : Session) (cs : List NodeId) : Prop :=
  ∀ c ∈ cs, ∀ t, s.Within g pending t → (t.cursor = s.cursor → g.LeftEdge id c) →
    Answers g pending bound call c t

theorem noteFailure_answered (hs : s.Sound g pending) (position : Nat) :
    Answered g pending null s (.fail s.cursor) (s.noteFailure position) :=
  (Within.alike (u := s.noteFailure position) (.refl hs) ⟨rfl, rfl, rfl⟩).fail hs rfl

theorem leaf_answered {text : String} {u : Session} (hs : s.Sound g pending)
    (hle : s.cursor + text.length ≤ s.length)
    (htext : text = textBetween s.input s.cursor (s.cursor + text.length))
    (hnull : text = "" → null) (hu : u.Alike (s.seek (s.cursor + text.length))) :
    Answered g pending null s (.leaf s.cursor text) u where
  within := (Within.refl hs).seek (Nat.le_add_right _ _) hle |>.alike hu
  placed := {
    start_eq := rfl
    start_le_stop := Nat.le_add_right _ _
    stop_le := hle
    failure := by simp
    spells := fun _ => .leaf hle htext
    null := fun _ hstop => by
      have hzero : text.length = 0 := by simpa using hstop
      exact hnull (String.length_eq_zero_iff.1 hzero) }
  cursor_eq := hu.cursor_eq
  failure_status := by simp

theorem matchLiteral_answered (label text : String) (hs : s.Sound g pending) :
    (matchLiteral label text s).Yields False bound fun a => Answered g pending (text = "") s a.1 a.2 := by
  unfold matchLiteral
  dsimp only
  split
  · exact noteFailure_answered hs _
  · rename_i hagreed
    have hlength : text.toList.length ≤ s.agreement s.cursor text.toList := by
      rw [String.length_toList]
      exact Nat.not_lt.1 hagreed
    obtain ⟨hle, htext⟩ := s.extract_of_agreement hlength hs.cursor_le
    rw [String.length_toList] at hle htext
    rw [moveToR_of_le hle]
    refine leaf_answered hs hle ?_ id (alike_emit ..)
    rw [textBetween, htext, String.ofList_toList]

theorem matchClass_answered (label : String) (cls : CharClass) (hs : s.Sound g pending) :
    (matchClass label cls s).Yields False bound fun a => Answered g pending False s a.1 a.2 := by
  unfold matchClass
  dsimp only
  split
  · exact noteFailure_answered hs _
  · rename_i c hc
    have hle : s.cursor + 1 ≤ s.length := (Array.getElem?_eq_some_iff.1 hc).1
    split
    · have hone : (String.singleton c).length = 1 := by simp
      rw [moveToR_of_le hle]
      refine leaf_answered hs ?_ ?_ ?_ ?_
      · rwa [hone]
      · rw [hone]
        exact (textBetween_singleton hc).symm
      · simp
      · rw [hone]
        exact alike_emit ..
    · exact noteFailure_answered hs _

/-- The rest of a sequence that began at the cursor of `s`. -/
theorem matchItems_answered {items : List NodeId} {acc : Match} (hs : s.Sound g pending)
    (ht : s.Within g pending t) (hacc : acc.Growing s.input s.cursor t.cursor)
    (hcall : AnswersInside g pending bound call id s items)
    (hleads : t.cursor = s.cursor → g.leadingItems items ⊆ g.leftmost id)
    (hnull : t.cursor = s.cursor → (∀ item ∈ items, g.Nullable item) → null) :
    (matchItems call s.cursor items acc t).Yields False bound fun a => Answered g pending null s a.1 a.2 := by
  induction items generalizing acc t with
  | nil => exact ht.growing hacc fun h => hnull h (by simp)
  | cons item rest ih =>
    have hitem := hcall item (by simp) t ht
      fun h => hleads h (Grammar.mem_leadingItems_cons g item rest)
    rw [matchItems]
    refine hitem.bind ?_
    rintro ⟨child, u⟩ hchild
    dsimp only at hchild ⊢
    have hu := ht.trans hchild.within
    split
    · rename_i hsuccess
      -- what is left leads the sequence only while the items so far have been empty
      have hempty : u.cursor = s.cursor → t.cursor = s.cursor ∧ g.Nullable item := by
        intro h
        have h₁ := ht.cursor_le
        have h₂ := hchild.within.cursor_le
        have h₃ := hchild.cursor_eq
        exact ⟨by omega, hchild.placed.null hsuccess (by omega)⟩
      have hgrown := hacc.push (ht.input_eq ▸ hchild.placed.spells hsuccess) hchild.placed.start_eq
      rw [← hchild.cursor_eq] at hgrown
      refine ih hu hgrown (fun c hc => hcall c (by simp [hc])) ?_ ?_
      · intro h
        obtain ⟨ht', hn⟩ := hempty h
        exact List.Subset.trans (Grammar.leadingItems_subset_cons hn rest) (hleads ht')
      · intro h hall
        obtain ⟨ht', hn⟩ := hempty h
        exact hnull ht' (by simpa [hn] using hall)
    · rw [moveToR_of_le (hu.length_eq ▸ hs.cursor_le)]
      exact (hu.seek (Nat.le_refl _) hs.cursor_le).fail hs rfl

theorem matchAlternatives_answered {alternatives : List NodeId} (hs : s.Sound g pending)
    (ht : s.Within g pending t) (hcursor : t.cursor = s.cursor)
    (hcall : AnswersInside g pending bound call id s alternatives)
    (hleads : ∀ c ∈ alternatives, g.LeftEdge id c)
    (hnull : (∃ alternative ∈ alternatives, g.Nullable alternative) → null) :
    (matchAlternatives call s.cursor alternatives t).Yields False bound
      fun a => Answered g pending null s a.1 a.2 := by
  induction alternatives generalizing t with
  | nil => exact ht.fail hs hcursor
  | cons alternative rest ih =>
    rw [matchAlternatives]
    refine (hcall alternative (by simp) t ht fun _ => hleads alternative (by simp)).bind ?_
    rintro ⟨child, u⟩ hchild
    dsimp only at hchild ⊢
    have hu := ht.trans hchild.within
    split
    · rename_i hsuccess
      have hgrown := (Match.Growing.ofEmpty hs.cursor_le).push
        (ht.input_eq ▸ hchild.placed.spells hsuccess) (hcursor ▸ hchild.placed.start_eq)
      rw [← hchild.cursor_eq] at hgrown
      refine hu.growing hgrown fun h => hnull ⟨alternative, by simp, hchild.placed.null hsuccess ?_⟩
      rw [← hchild.cursor_eq, h, hcursor]
    · rw [moveToR_of_le (hu.length_eq ▸ hs.cursor_le)]
      exact ih (hu.seek (Nat.le_refl _) hs.cursor_le) rfl (fun c hc => hcall c (by simp [hc]))
        (fun c hc => hleads c (by simp [hc]))
        fun ⟨c, hc, hn⟩ => hnull ⟨c, by simp [hc], hn⟩

/-- What is left of a repetition that began at the cursor of `s`: it never runs out of rounds, since
each of them but the last takes a character. -/
theorem matchRounds_answered {body : NodeId} {min : Nat} {max? : Option Nat} {rounds count : Nat}
    {acc : Match} (ht : s.Within g pending t) (hacc : acc.Growing s.input s.cursor t.cursor)
    (hcall : AnswersInside g pending bound call id s [body]) (hleads : g.LeftEdge id body)
    (hrounds : s.length - t.cursor < rounds) :
    (matchRounds call body min max? rounds count acc t).Yields False bound fun a =>
      s.Within g pending a.2.2 ∧ a.2.1.Growing s.input s.cursor a.2.2.cursor ∧
        t.cursor ≤ a.2.2.cursor ∧ (a.2.2.cursor = s.cursor → count < a.1 → g.Nullable body) := by
  induction rounds generalizing count acc t with
  | zero => omega
  | succ rounds ih =>
    rw [matchRounds]
    split
    · refine (hcall body (by simp) t ht fun _ => hleads).bind ?_
      rintro ⟨child, u⟩ hchild
      dsimp only at hchild ⊢
      have hu := ht.trans hchild.within
      have htu := hchild.within.cursor_le
      have hcursor := hchild.cursor_eq
      cases hsuccess : child.success with
      | false =>
        rw [Bool.not_false, if_pos rfl,
          moveToR_of_le (hchild.within.length_eq.symm ▸ ht.sound.cursor_le)]
        have hlen := ht.length_eq ▸ ht.sound.cursor_le
        exact ⟨hu.seek ht.cursor_le hlen, hacc, Nat.le_refl _, fun _ h => absurd h (Nat.lt_irrefl _)⟩
      | true =>
        rw [Bool.not_true, if_neg Bool.false_ne_true]
        have hgrown := hacc.push (ht.input_eq ▸ hchild.placed.spells hsuccess) hchild.placed.start_eq
        rw [← hcursor] at hgrown
        split
        · rename_i hprogress
          have hlt := ht.cursor_le
          have hlen := hu.length_eq ▸ hu.sound.cursor_le
          refine (ih hu hgrown (by omega)).mono ?_
          rintro ⟨n, m, v⟩ ⟨hv, hm, hle, _⟩
          dsimp only at hle ⊢
          exact ⟨hv, hm, by omega, fun h => by omega⟩
        · rename_i hstill
          have hstart := hchild.placed.start_le_stop
          exact ⟨hu, hgrown, htu, fun _ _ => hchild.placed.null hsuccess (by omega)⟩
    · exact ⟨ht, hacc, Nat.le_refl _, fun _ h => absurd h (Nat.lt_irrefl _)⟩

theorem matchRepetition_answered {body : NodeId} {min : Nat} {max? : Option Nat} (hs : s.Sound g pending)
    (hcall : AnswersInside g pending bound call id s [body]) (hleads : g.LeftEdge id body) :
    (matchRepetition call body min max? s).Yields False bound fun a =>
      Answered g pending (min = 0 ∨ g.Nullable body) s a.1 a.2 := by
  unfold matchRepetition
  dsimp only
  refine (matchRounds_answered (.refl hs) (.ofEmpty hs.cursor_le) hcall hleads
    (Nat.lt_succ_self _)).bind ?_
  rintro ⟨count, m, t⟩ ⟨ht, hm, _, hnull⟩
  dsimp only at ht hm hnull ⊢
  split
  · rw [moveToR_of_le (ht.length_eq ▸ hs.cursor_le)]
    exact (ht.seek (Nat.le_refl _) hs.cursor_le).fail hs rfl
  · rename_i hcount
    refine ht.growing hm fun h => ?_
    rcases Nat.eq_zero_or_pos min with hmin | hmin
    · exact .inl hmin
    · exact .inr (hnull h (by omega))

theorem matchPredicate_answered {body : NodeId} {expected : Bool} (hs : s.Sound g pending)
    (hcall : AnswersInside g pending bound call id s [body]) (hleads : g.LeftEdge id body) :
    (matchPredicate call body expected s).Yields False bound fun a =>
      Answered g pending True s a.1 a.2 := by
  unfold matchPredicate
  dsimp only
  refine (hcall body (by simp) s (.refl hs) fun _ => hleads).bind ?_
  rintro ⟨child, t⟩ hchild
  dsimp only at hchild ⊢
  rw [moveToR_of_le (hchild.within.length_eq ▸ hs.cursor_le)]
  have ht : s.Within g pending ((t.seek s.cursor).restoreFailure s.furthestFailure?) :=
    (hchild.within.seek (Nat.le_refl _) hs.cursor_le).alike ⟨rfl, rfl, rfl⟩
  simp only [Run.done_bind, Run.pure_eq_done, Run.yields_done]
  split
  · exact ht.growing (.ofEmpty hs.cursor_le) fun _ => trivial
  · exact ht.fail hs rfl

theorem matchRule_answered {body : NodeId} (hs : s.Sound g pending)
    (hcall : AnswersInside g pending bound call id s [body]) (hleads : g.LeftEdge id body) :
    (matchRule call body s).Yields False bound fun a =>
      Answered g pending (g.Nullable body) s a.1 a.2 := by
  unfold matchRule
  refine (hcall body (by simp) s (.refl hs) fun _ => hleads).bind ?_
  rintro ⟨child, t⟩ hchild
  dsimp only at hchild ⊢
  split
  · rename_i h
    have hsuccess : child.success = true := (Bool.and_eq_true_iff.1 h).1
    have hstart := hchild.placed.start_eq
    have hgrown := (Match.Growing.ofEmpty (hstart ▸ hs.cursor_le)).push
      (hchild.placed.spells hsuccess) rfl
    rw [← hchild.cursor_eq, hstart] at hgrown
    rw [hstart]
    refine hchild.within.growing hgrown fun ht => hchild.placed.null hsuccess ?_
    rw [← hchild.cursor_eq, ht]
  · exact hchild

theorem eval_answered {node : Node} (hnode : g.node? id = some node) (hs : s.Sound g pending)
    (hcall : AnswersInside g pending bound call id s node.pattern.components) (label : String) :
    (node.pattern.eval call label s).Yields False bound fun a =>
      Answered g pending (g.Nullable id) s a.1 a.2 := by
  have hof : Grammar.NullablePattern g.Nullable node.pattern → g.Nullable id :=
    Grammar.Nullable.of_pattern hnode
  have hleft : (∀ items, node.pattern ≠ .sequence items) →
      ∀ c ∈ node.pattern.components, g.LeftEdge id c := fun h c hc => by
    rwa [Grammar.LeftEdge, Grammar.leftmost_eq_components hnode h]
  generalize hp : node.pattern = pattern at hcall hof hleft
  cases pattern with
  | literal text => exact (matchLiteral_answered label text hs).mono fun a ha => ha.mono hof
  | charClass cls => exact (matchClass_answered label cls hs).mono fun a ha => ha.mono hof
  | sequence items =>
    refine matchItems_answered hs (.refl hs) (.ofEmpty hs.cursor_le) hcall (fun _ => ?_) fun _ => hof
    rw [Grammar.leftmost_eq_leadingItems hnode hp]
    exact List.Subset.refl _
  | choice alternatives =>
    exact matchAlternatives_answered hs (.refl hs) rfl hcall (hleft (by simp)) hof
  | repetition body min max? =>
    exact (matchRepetition_answered hs hcall (hleft (by simp) body (by simp [Pattern.components]))).mono
      fun a ha => ha.mono hof
  | predicate body expected =>
    exact (matchPredicate_answered hs hcall (hleft (by simp) body (by simp [Pattern.components]))).mono
      fun a ha => ha.mono hof
  | rule body =>
    exact (matchRule_answered hs hcall (hleft (by simp) body (by simp [Pattern.components]))).mono
      fun a ha => ha.mono hof

end Pattern

open Session in
/-- A node answers as its pattern does, and puts its origin on the match. -/
theorem Node.eval_answered {g : Grammar} {pending : Pending} {bound : Prop} {call : Evaluator}
    {id : NodeId} {node : Node} {s : Session} (hnode : g.node? id = some node) (hs : s.Sound g pending)
    (hcall : Pattern.AnswersInside g pending bound call id s node.pattern.components) :
    (node.eval call s).Yields False bound fun a =>
      Answered g pending (g.Nullable id) s a.1 a.2 ∧ a.1.origin? = some node.origin := by
  unfold Node.eval
  dsimp only
  have hnoted := alike_emit s .attempt node.label s.cursor s.cursor
  have hcall' : Pattern.AnswersInside g pending bound call id
      (s.emit .attempt node.label s.cursor s.cursor) node.pattern.components := by
    intro c hc t ht hleft
    exact hcall c hc t (ht.of_alike hnoted) (hnoted.cursor_eq ▸ hleft)
  refine (Pattern.eval_answered hnode (hs.alike hnoted) hcall' node.label).bind ?_
  rintro ⟨m, t⟩ hm
  dsimp only at hm ⊢
  have hm' : Answered g pending (g.Nullable id) s m t := hm.of_alike hnoted
  have hstamped : Answered g pending (g.Nullable id) s (m.stamp node.origin) t :=
    { hm' with placed := hm'.placed.stamp node.origin }
  refine ⟨?_, rfl⟩
  split
  · exact hstamped.alike (alike_emit ..)
  · exact hstamped.alike (alike_emit ..)

end Packrat
