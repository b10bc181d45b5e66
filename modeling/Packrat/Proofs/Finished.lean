import Packrat.Proofs.Carrying
import Packrat.Proofs.Names

/-!
# Finished entries

While rules are being evaluated the memo table is full of placeholders and of seeds. Each evaluation puts its
own final answer in their place, whichever way it ends, so that between two calls there is nothing else in the
table. The furthest failure that has been noted lies in the input as well.
-/

namespace Packrat

open Session

/-- What is in the memo table for the rule `id` at `position` when nothing is being evaluated. -/
structure Session.Finished (g : Grammar) (s : Session) (position : Nat) (id : NodeId) (e : Match) : Prop where
  position_le : position ≤ s.length
  rule : ∃ node name, g.node? id = some node ∧ node.hidden = false ∧ node.kind = .rule ∧
    node.name? = some name ∧ e.name? = some name ∧ e.kind? = some .rule
  start_eq : e.start = position
  status_ne : e.status ≠ .possible
  failure : e.success = false → e.status = .impossible ∧ e.stop = position ∧ e.children = []
  success : e.success = true → e.stop ≤ s.length ∧ e.text = s.slice position e.stop

def Session.FailureInside (s : Session) : Prop :=
  ∀ position, s.furthestFailure? = some position → position ≤ s.length

theorem Session.Sound.finished {g : Grammar} (hg : g.WellFormed) {s : Session} (hs : s.Sound g .none) {q : Nat}
    {r : NodeId} {e : Match} (h : s.memo.get? q r = some e) : s.Finished g q r e := by
  have hplaced := hs.placed h
  have hsettled := hs.settled h fun hp => hp
  have hvisible := hs.visible h
  obtain ⟨node, hnode⟩ := Grammar.exists_node_of_visible hvisible
  have hhidden := (Grammar.isVisible_iff hnode).1 hvisible
  obtain ⟨name, hname⟩ := Node.exists_name hhidden
  have hkind : node.kind = .rule := hg.kind_of_name hnode (by simp [hname])
  have horigin : e.origin? = some node.origin := by
    rw [hsettled.origin?_eq, hnode]
    rfl
  refine ⟨hplaced.start_le_stop.trans hplaced.stop_le, ⟨node, name, hnode, hhidden, hkind, hname, ?_, ?_⟩,
    hplaced.start_eq, hsettled.status_ne, ?_, ?_⟩
  · rw [Match.name?, horigin]
    exact hname
  · rw [Match.kind?, horigin]
    exact congrArg some hkind
  · intro hfail
    obtain ⟨hstop, _, hchildren⟩ := hplaced.failure hfail
    exact ⟨hsettled.failure_status hfail, hstop, hchildren⟩
  · intro hsuccess
    refine ⟨hplaced.stop_le, ?_⟩
    rw [(hplaced.spells hsuccess).fits.text_eq, hplaced.start_eq]
    rfl

namespace Grammar

variable {g : Grammar} {s : Session}

/-- Failures are noted at places of the input only, and withdrawn in favour of earlier ones. -/
theorem carried_failureInside (g : Grammar) : Carried g Session.FailureInside fun _ _ => True where
  seek _ h := h
  emit kind label start stop h := by
    intro position hposition
    rw [furthestFailure?_emit] at hposition
    rw [(alike_emit ..).length_eq]
    exact h position hposition
  noteFailure {s position} hle h := by
    intro furthest hfurthest
    show furthest ≤ s.length
    unfold furthestFailure? Session.noteFailure Diagnostics.noteFailure at hfurthest
    dsimp only at hfurthest
    split at hfurthest
    · obtain rfl := Option.some.inj hfurthest
      split
      · rename_i before hbefore
        exact Nat.max_le.2 ⟨h before hbefore, hle⟩
      · exact hle
    · exact h furthest hfurthest
  restoreFailure hlength _ h := by
    intro position hposition
    exact (h position hposition).trans hlength.symm.le
  remember _ h _ := h
  remembered _ _ _ := trivial
  withStatus _ h := h
  stamp _ _ := trivial

/-- In every session in use, all entries of the memo table are finished, and the furthest failure, if there is
any, lies in the input. -/
theorem Reached.table_is_finished (hg : g.Built) (hs : g.Reached s) :
    (∀ q r e, s.memo.get? q r = some e → s.Finished g q r e) ∧
      ∀ position, s.furthestFailure? = some position → position ≤ s.length := by
  have hinside : s.FailureInside := by
    refine hs.carried hg.wellFormed (carried_failureInside g) ?_ ?_
    · intro input options position hposition
      simp [furthestFailure?, Session.start, Diagnostics.forOptions] at hposition
    · intro s id h
      exact h
  exact ⟨fun q r e he => (hs.sound hg.wellFormed).finished hg.wellFormed he, hinside⟩

/-- After the match of `1+2` there is a sum in the table, and the furthest failure is at the end. -/
theorem sum_table_is_finished : ∃ s e, Reference.expression.build.grammar.Reached s ∧
    s.memo.get? 0 3 = some e ∧ e.success = true ∧ s.Finished Reference.expression.build.grammar 0 3 e ∧
      s.furthestFailure? = some 3 ∧ 3 ≤ s.length := by
  obtain ⟨m, s, h, hentry, hfailure⟩ := exists_matches (by decide +kernel :
    (Reference.expression.build.grammar.matchAt 3 (Session.start "1+2" {})).Yields False False
      fun a => (a.2.memo.get? 0 3).any Match.success = true ∧ a.2.furthestFailure? = some 3)
  obtain ⟨e, he, hsuccess⟩ := (Option.any_eq_true ..).1 hentry
  have hreached := Reached.matched (.start "1+2" {}) h
  obtain ⟨hfinished, hinside⟩ := Reached.table_is_finished Reference.expression.built hreached
  exact ⟨s, e, hreached, he, hsuccess, hfinished 0 3 e he, hfailure, hinside 3 hfailure⟩

end Grammar

end Packrat
