import Packrat.Proofs.CallAnswers

/-!
# Runs of a grammar

The weight of a call falls with every call that is made inside it: either characters have been taken,
or a rule of this position has got its first entry in the memo table, or a hidden node has called one
of its leftmost components. Runs are sound at every depth, and a depth above the weight is never met.
-/

namespace Packrat

open Session Pattern

namespace Grammar

variable {g : Grammar} {pending : Pending} {bound : Prop} {id c : NodeId} {s t : Session}

def missing (g : Grammar) (s : Session) : Nat :=
  ((Finset.range g.size).filter fun r =>
    g.isVisible r = true ∧ (s.memo.get? s.cursor r).isNone = true).card

/-- What is left to be done in a call, at most: by characters, then by rules without an entry, then by
hidden nodes. -/
noncomputable def weight (g : Grammar) (id : NodeId) (s : Session) : Nat :=
  ((s.length - s.cursor) * (g.size + 2) + g.missing s) * (g.size + 2) + g.hiddenRank id

theorem missing_le_size (g : Grammar) (s : Session) : g.missing s ≤ g.size := by
  have h := Finset.card_filter_le (Finset.range g.size) fun r =>
    g.isVisible r = true ∧ (s.memo.get? s.cursor r).isNone = true
  rwa [Finset.card_range] at h

theorem missing_subset (hcursor : t.cursor = s.cursor)
    (hkept : ∀ r, (s.memo.get? s.cursor r).isSome → (t.memo.get? s.cursor r).isSome) :
    (Finset.range g.size).filter
        (fun r => g.isVisible r = true ∧ (t.memo.get? t.cursor r).isNone = true) ⊆
      (Finset.range g.size).filter
        (fun r => g.isVisible r = true ∧ (s.memo.get? s.cursor r).isNone = true) := by
  intro r hr
  rw [Finset.mem_filter] at hr ⊢
  refine ⟨hr.1, hr.2.1, ?_⟩
  have hnone := hr.2.2
  rw [hcursor, Option.isNone_iff_eq_none] at hnone
  cases hs : s.memo.get? s.cursor r with
  | none => rfl
  | some m =>
    have h := hkept r (by simp [hs])
    simp [hnone] at h

theorem missing_le (hcursor : t.cursor = s.cursor)
    (hkept : ∀ r, (s.memo.get? s.cursor r).isSome → (t.memo.get? s.cursor r).isSome) :
    g.missing t ≤ g.missing s :=
  Finset.card_le_card (missing_subset hcursor hkept)

theorem missing_lt (hcursor : t.cursor = s.cursor)
    (hkept : ∀ r, (s.memo.get? s.cursor r).isSome → (t.memo.get? s.cursor r).isSome)
    (hid : id < g.size) (hvisible : g.isVisible id = true) (hnone : s.memo.get? s.cursor id = none)
    (hsome : (t.memo.get? s.cursor id).isSome) : g.missing t < g.missing s := by
  refine Finset.card_lt_card ((Finset.ssubset_iff_of_subset (missing_subset hcursor hkept)).2 ⟨id, ?_, ?_⟩)
  · exact Finset.mem_filter.2 ⟨Finset.mem_range.2 hid, hvisible, by simp [hnone]⟩
  · intro h
    have hn := (Finset.mem_filter.1 h).2.2
    rw [hcursor, Option.isNone_iff_eq_none] at hn
    simp [hn] at hsome

theorem digits_lt {a b r n : Nat} (hab : a < b) (hr : r < n) : a * n + r < b * n := by
  have h : (a + 1) * n ≤ b * n := Nat.mul_le_mul_right n hab
  rw [Nat.succ_mul] at h
  omega

theorem weight_lt_of_cursor_lt (hlength : t.length = s.length) (hlt : s.cursor < t.cursor)
    (hle : t.cursor ≤ t.length) : g.weight c t < g.weight id s := by
  have hrank := g.hiddenRank_le c
  have hmissing := g.missing_le_size t
  have hdigits : (t.length - t.cursor) * (g.size + 2) + g.missing t <
      (s.length - s.cursor) * (g.size + 2) := digits_lt (by omega) (by omega)
  have h := digits_lt (r := g.hiddenRank c) (n := g.size + 2) hdigits (by omega)
  have hmono := Nat.mul_le_mul_right (g.size + 2)
    (Nat.le_add_right ((s.length - s.cursor) * (g.size + 2)) (g.missing s))
  unfold weight
  omega

theorem weight_lt_of_missing_lt (hlength : t.length = s.length) (hcursor : t.cursor = s.cursor)
    (hlt : g.missing t < g.missing s) : g.weight c t < g.weight id s := by
  have hrank := g.hiddenRank_le c
  unfold weight
  rw [hlength, hcursor]
  have h := digits_lt (r := g.hiddenRank c) (n := g.size + 2)
    (Nat.add_lt_add_left hlt ((s.length - s.cursor) * (g.size + 2))) (by omega)
  omega

theorem weight_lt_of_rank_lt (hlength : t.length = s.length) (hcursor : t.cursor = s.cursor)
    (hle : g.missing t ≤ g.missing s) (hlt : g.hiddenRank c < g.hiddenRank id) :
    g.weight c t < g.weight id s := by
  unfold weight
  rw [hlength, hcursor]
  have h := Nat.mul_le_mul_right (g.size + 2)
    (Nat.add_le_add_left hle ((s.length - s.cursor) * (g.size + 2)))
  omega

theorem weight_lt_depthBound (g : Grammar) (id : NodeId) (s : Session) :
    g.weight id s < g.depthBound s.length := by
  have hrank := g.hiddenRank_le id
  have hmissing := g.missing_le_size s
  have hdigits : (s.length - s.cursor) * (g.size + 2) + g.missing s <
      (s.length + 1) * (g.size + 2) := digits_lt (by omega) (by omega)
  exact digits_lt hdigits (by omega)

/-- The calls inside a hidden node are lighter than its own. -/
theorem weight_lt_of_hidden (hcycle : g.NoHiddenCycle) (hid : g.Hidden id) (hc : c < g.size)
    (ht : s.Within g pending t) (hleft : t.cursor = s.cursor → g.LeftEdge id c) :
    g.weight c t < g.weight id s := by
  rcases Nat.eq_or_lt_of_le ht.cursor_le with heq | hlt
  · exact weight_lt_of_rank_lt ht.length_eq heq.symm (missing_le heq.symm fun r => ht.kept.isSome)
      (hiddenRank_lt hcycle hid hc (hleft heq.symm))
  · exact weight_lt_of_cursor_lt ht.length_eq hlt ht.sound.cursor_le

/-- The calls inside a rule that has just been given an entry are lighter than the call of the rule. -/
theorem weight_lt_of_restart {u : Session} (hid : id < g.size) (hvisible : g.isVisible id = true)
    (hnone : s.remembered? id = none) (hu : s.Restart g pending id u)
    (ht : u.Within g (pending.add s.cursor id) t) : g.weight c t < g.weight id s := by
  have hlength : t.length = s.length := ht.length_eq.trans (Session.length_eq hu.input_eq)
  have hle := ht.cursor_le
  rw [hu.cursor_eq] at hle
  rcases Nat.eq_or_lt_of_le hle with heq | hlt
  · refine weight_lt_of_missing_lt hlength heq.symm (missing_lt heq.symm ?_ hid hvisible hnone ?_)
    · exact fun r hr => ht.kept.isSome (hu.kept.isSome hr)
    · exact ht.kept.isSome hu.isSome
  · exact weight_lt_of_cursor_lt hlength hlt ht.sound.cursor_le

/-- Runs of every depth are sound; they do not meet their depth if that is above the weight of the call
and no cycle of hidden nodes can be gone round without taking a character. -/
theorem run_answered (hg : g.WellFormed) (hcycle : bound ∨ g.NoHiddenCycle) {depth : Nat}
    (hid : id < g.size) (hs : s.Sound g pending) (hdepth : bound ∨ g.weight id s < depth) :
    (g.run depth id s).Yields False bound fun a => Answered g pending (g.Nullable id) s a.1 a.2 := by
  induction depth generalizing pending id s with
  | zero => exact hdepth.resolve_right (Nat.not_lt_zero _)
  | succ depth ih =>
    obtain ⟨node, hnode⟩ := exists_node hid
    refine answer_answered hnode hs ?_ ?_
    · intro hhidden c hc t ht hleft
      refine ih (hg.component_lt hnode hc) ht.sound ?_
      by_cases hb : bound
      · exact .inl hb
      · have hlt := weight_lt_of_hidden (hcycle.resolve_left hb) hhidden (hg.component_lt hnode hc) ht hleft
        have hle := hdepth.resolve_left hb
        exact .inr (by omega)
    · intro hvisible hnone u hu c hc t ht _
      refine ih (hg.component_lt hnode hc) ht.sound ?_
      by_cases hb : bound
      · exact .inl hb
      · have hlt := weight_lt_of_restart (c := c) hid hvisible hnone hu ht
        have hle := hdepth.resolve_left hb
        exact .inr (by omega)

theorem run_answersInside (hg : g.WellFormed) {node : Node} (hnode : g.node? id = some node) (depth : Nat)
    (s : Session) : AnswersInside g pending True (g.run depth) id s node.pattern.components :=
  fun _ hc _ hu _ => run_answered hg (.inl trivial) (hg.component_lt hnode hc) hu.sound (.inl trivial)

theorem answered_of_eval (hg : g.WellFormed) {node : Node} (hnode : g.node? id = some node) (hs : s.Sound g pending)
    {depth : Nat} {m : Match} (h : node.eval (g.run depth) s = .done (m, t)) :
    Answered g pending (g.Nullable id) s m t :=
  ((Node.eval_answered hnode hs (run_answersInside hg hnode depth s)).of_done h).1

theorem answered_of_run (hg : g.WellFormed) (hs : s.Sound g pending) {depth : Nat} {m : Match}
    (h : g.run depth id s = .done (m, t)) : id < g.size ∧ Answered g pending (g.Nullable id) s m t := by
  cases depth with
  | zero => nomatch h
  | succ depth =>
    have hid : id < g.size := by
      by_contra hid
      rw [run, answer, node?_eq_none_iff.2 (Nat.not_lt.1 hid)] at h
      nomatch h
    have hrun : (g.run (depth + 1) id s).Yields False True
        fun a => Answered g pending (g.Nullable id) s a.1 a.2 :=
      run_answered hg (.inl trivial) hid hs (.inl trivial)
    exact ⟨hid, hrun.of_done h⟩

end Grammar

end Packrat
