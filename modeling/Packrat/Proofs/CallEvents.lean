import Packrat.Proofs.Sessions

/-!
# The steps of a call

What a trial, an attempt to grow, a growth and the first call of a rule consist of if they end, with every event that
is noted on the way. The statements hold in both directions: from the steps follows the end of the call.
-/

namespace Packrat

open Session

namespace Node

variable {call : Evaluator} {node : Node} {id : NodeId} {s t : Session} {m : Match}

/-- A trial of the body stands between the events of its attempt and its end. -/
theorem eval_eq_done_iff : node.eval call s = .done (m, t) ↔
    ∃ n u, node.pattern.eval call node.label (s.emit .attempt node.label s.cursor s.cursor) = .done (n, u) ∧
      m = n.stamp node.origin ∧
      t = if n.success then u.emit .accept node.label n.start n.stop
        else u.emit .reject node.label s.cursor s.cursor := by
  unfold Node.eval
  constructor
  · intro h
    obtain ⟨⟨n, u⟩, hn, h⟩ := Run.bind_eq_done_iff.1 h
    obtain ⟨rfl, rfl⟩ := Prod.mk.inj (Run.done.inj h)
    exact ⟨n, u, hn, rfl, rfl⟩
  · rintro ⟨n, u, hn, rfl, rfl⟩
    exact Run.bind_eq_done_iff.2 ⟨(n, u), hn, rfl⟩

/-- An attempt to grow fails, is no longer than the match before, or is accepted in its place. -/
theorem growRounds_eq_done_iff {initial rounds iteration k : Nat} {committed : Match} :
    growRounds call node id initial (rounds + 1) iteration committed s = .done (k, m, t) ↔
    initial ≤ s.length ∧ ∃ attempt v,
      node.eval call ((s.emit (.growAttempt iteration) node.label initial committed.stop).seek initial) =
        .done (attempt, v) ∧
      ((attempt.success = false ∧ k = iteration - 1 ∧ m = committed ∧
          t = v.emit (.growFail iteration) node.label initial initial) ∨
        (attempt.success = true ∧ attempt.stop ≤ committed.stop ∧ k = iteration - 1 ∧ m = committed ∧
          t = v.emit (.growReject iteration) node.label initial attempt.stop) ∨
        (attempt.success = true ∧ committed.stop < attempt.stop ∧
          growRounds call node id initial rounds (iteration + 1) (attempt.withStatus .detected)
            ((v.emit (.growAccept iteration) node.label initial attempt.stop).save initial id node.label
              (attempt.withStatus .detected)) = .done (k, m, t))) := by
  rw [growRounds, Run.bind_eq_done_iff]
  have hlength : (s.emit (.growAttempt iteration) node.label initial committed.stop).length = s.length :=
    (alike_emit ..).length_eq
  constructor
  · rintro ⟨u, hu, h⟩
    obtain ⟨hle, rfl⟩ := moveToR_eq_done_iff.1 hu
    obtain ⟨⟨attempt, v⟩, hattempt, h⟩ := Run.bind_eq_done_iff.1 h
    refine ⟨hlength ▸ hle, attempt, v, hattempt, ?_⟩
    dsimp only at h
    split at h
    · rename_i hfail
      obtain ⟨rfl, rfl, rfl⟩ := by simpa using h
      exact .inl ⟨by simpa using hfail, rfl, rfl, rfl⟩
    · rename_i hsuccess
      split at h
      · rename_i hstill
        obtain ⟨rfl, rfl, rfl⟩ := by simpa using h
        exact .inr (.inl ⟨by simpa using hsuccess, hstill, rfl, rfl, rfl⟩)
      · rename_i hfurther
        exact .inr (.inr ⟨by simpa using hsuccess, Nat.not_le.1 hfurther, h⟩)
  · rintro ⟨hle, attempt, v, hattempt, hcase⟩
    refine ⟨_, moveToR_eq_done_iff.2 ⟨hlength.symm ▸ hle, rfl⟩, Run.bind_eq_done_iff.2 ⟨_, hattempt, ?_⟩⟩
    dsimp only
    rcases hcase with ⟨hfail, rfl, rfl, rfl⟩ | ⟨hsuccess, hstill, rfl, rfl, rfl⟩ | ⟨hsuccess, hfurther, h⟩
    · simp [hfail]
    · simp [hsuccess, hstill]
    · simpa [hsuccess, Nat.not_le.2 hfurther] using h

theorem grow_eq_done_iff {initial : Nat} {seed : Match} : node.grow call id initial seed s = .done (m, t) ↔
    ∃ k w, growRounds call node id initial (s.length - seed.stop + 1) 1 seed s = .done (k, m, w) ∧
      m.stop ≤ w.length ∧ t = (w.emit (.growTerminate k) node.label initial m.stop).seek m.stop := by
  rw [grow, Run.bind_eq_done_iff]
  constructor
  · rintro ⟨⟨k, committed, w⟩, hgrow, h⟩
    obtain ⟨u, hu, h⟩ := Run.bind_eq_done_iff.1 h
    obtain ⟨hle, rfl⟩ := moveToR_eq_done_iff.1 hu
    obtain ⟨rfl, rfl⟩ := Prod.mk.inj (Run.done.inj h)
    exact ⟨k, w, hgrow, (alike_emit ..).length_eq ▸ hle, rfl⟩
  · rintro ⟨k, w, hgrow, hle, rfl⟩
    have hlength : (w.emit (.growTerminate k) node.label initial m.stop).length = w.length :=
      (alike_emit ..).length_eq
    refine ⟨_, hgrow, Run.bind_eq_done_iff.2 ⟨_, moveToR_eq_done_iff.2 ⟨hlength.symm ▸ hle, rfl⟩, rfl⟩⟩

theorem answerFirst_eq_done_iff : node.answerFirst call id s = .done (m, t) ↔
    ∃ first u, node.eval call (s.remember s.cursor id (.placeholder s.cursor)) = .done (first, u) ∧
      if ((u.memo.get? s.cursor id).map Match.status).getD .possible = .detected ∧ first.success = true then
        node.grow call id s.cursor (first.withStatus .detected)
          ((u.save s.cursor id node.label (first.withStatus .detected)).emit .beginGrow node.label first.start
            first.stop) = .done (m, t)
      else m = first.withStatus .impossible ∧ t = u.save s.cursor id node.label m := by
  rw [answerFirst, Run.bind_eq_done_iff]
  simp only [Prod.exists, Bool.and_eq_true, decide_eq_true_eq]
  refine exists_congr fun first => exists_congr fun u => and_congr_right fun _ => ?_
  split
  · rfl
  · constructor
    · intro h
      obtain ⟨rfl, rfl⟩ := Prod.mk.inj (Run.done.inj h)
      exact ⟨rfl, rfl⟩
    · rintro ⟨rfl, rfl⟩
      rfl

end Node

namespace Grammar

variable {g : Grammar} {call : Evaluator} {id : NodeId} {node : Node} {s : Session}

theorem answer_of_hidden (hnode : g.node? id = some node) (hhidden : node.hidden = true) :
    g.answer call id s = node.eval call s := by
  rw [answer, hnode]
  exact if_pos hhidden

/-- Looking a rule up is noted, whether it is found or not. -/
theorem answer_of_remembered {memo : Match} (hnode : g.node? id = some node) (hhidden : node.hidden = false)
    (hmemo : s.remembered? id = some memo) :
    g.answer call id s = node.answerFromMemo id memo (s.emit .memoCheck node.label s.cursor s.cursor) := by
  have hlook : (s.emit .memoCheck node.label s.cursor s.cursor).remembered? id = some memo := by
    simpa [remembered?] using hmemo
  rw [answer, hnode]
  dsimp only
  rw [if_neg (by simp [hhidden]), hlook]

theorem answer_of_absent (hnode : g.node? id = some node) (hhidden : node.hidden = false)
    (hnone : s.remembered? id = none) :
    g.answer call id s = node.answerFirst call id (s.emit .memoCheck node.label s.cursor s.cursor) := by
  have hlook : (s.emit .memoCheck node.label s.cursor s.cursor).remembered? id = none := by
    simpa [remembered?] using hnone
  rw [answer, hnode]
  dsimp only
  rw [if_neg (by simp [hhidden]), hlook]

end Grammar

end Packrat
