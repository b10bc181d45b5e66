import Packrat.Proofs.CallEvents

/-!
# What a call does to its session

Everything that a call of a rule can do, once it is known to end: what it finds in the table or puts there,
which trials of the body it makes, and where it leaves the cursor. The notes that are taken on the way are
passed over. Whatever is to be shown of all calls is shown from these statements.
-/

namespace Packrat

open Session

namespace Node

variable {call : Evaluator} {node : Node} {id : NodeId} {s t : Session} {m : Match}

/-- A rule that is found is given as it is, unless it is a placeholder, which is marked. -/
theorem answerFromMemo_cases {memo : Match} (h : node.answerFromMemo id memo s = .done (m, t)) :
    (memo.success = true → memo.stop ≤ s.length) ∧
      ((memo.status = .possible ∧ m = memo.withStatus .detected ∧
          t.Alike ((s.seek (if memo.success then memo.stop else s.cursor)).remember s.cursor id m)) ∨
        (memo.status ≠ .possible ∧ m = memo ∧
          t.Alike (s.seek (if memo.success then memo.stop else s.cursor)))) := by
  have hmoved : (memo.success = true → memo.stop ≤ s.length) ∧
      (if memo.status = .possible then
        (.done (memo.withStatus .detected, ((s.seek (if memo.success then memo.stop else s.cursor)).remember
          s.cursor id (memo.withStatus .detected)).emit .identifyLeftRecursion node.label s.cursor s.cursor) : Answer)
      else .done (memo, (s.seek (if memo.success then memo.stop else s.cursor)).emit (.assumeResult memo.status)
        node.label memo.start memo.stop)) = .done (m, t) := by
    unfold answerFromMemo at h
    dsimp only at h
    split at h
    · rename_i hsuccess
      obtain ⟨u, hu, h⟩ := Run.bind_eq_done_iff.1 h
      obtain ⟨hle, rfl⟩ := moveToR_eq_done_iff.1 hu
      rw [if_pos hsuccess]
      exact ⟨fun _ => hle, h⟩
    · rename_i hfail
      rw [if_neg hfail]
      exact ⟨fun hsuccess => absurd hsuccess hfail, h⟩
  obtain ⟨hle, h⟩ := hmoved
  refine ⟨hle, ?_⟩
  split at h
  · rename_i hpossible
    obtain ⟨rfl, rfl⟩ := Prod.mk.inj (Run.done.inj h)
    exact .inl ⟨hpossible, rfl, alike_emit ..⟩
  · rename_i hstatus
    obtain ⟨rfl, rfl⟩ := Prod.mk.inj (Run.done.inj h)
    exact .inr ⟨hstatus, rfl, alike_emit ..⟩

/-- An attempt to grow ends the growth, or is remembered in the place of the match before. -/
theorem growRounds_cases {initial rounds iteration k : Nat} {committed : Match}
    (h : growRounds call node id initial (rounds + 1) iteration committed s = .done (k, m, t)) :
    ∃ u attempt v, u.Alike (s.seek initial) ∧ initial ≤ s.length ∧ node.eval call u = .done (attempt, v) ∧
      (((attempt.success = true → attempt.stop ≤ committed.stop) ∧ k = iteration - 1 ∧ m = committed ∧
          t.Alike v) ∨
        (attempt.success = true ∧ committed.stop < attempt.stop ∧
          ∃ w, w.Alike (v.remember initial id (attempt.withStatus .detected)) ∧
            growRounds call node id initial rounds (iteration + 1) (attempt.withStatus .detected) w =
              .done (k, m, t))) := by
  obtain ⟨hle, attempt, v, hattempt, hcase⟩ := growRounds_eq_done_iff.1 h
  refine ⟨_, attempt, v, (alike_emit ..).seek initial, hle, hattempt, ?_⟩
  rcases hcase with ⟨hfail, rfl, rfl, rfl⟩ | ⟨_, hstill, rfl, rfl, rfl⟩ | ⟨hsuccess, hfurther, h⟩
  · exact .inl ⟨fun hsuccess => by simp [hsuccess] at hfail, rfl, rfl, alike_emit ..⟩
  · exact .inl ⟨fun _ => hstill, rfl, rfl, alike_emit ..⟩
  · exact .inr ⟨hsuccess, hfurther, _, (alike_save ..).trans ((alike_emit ..).remember ..), h⟩

/-- A rule that is called for the first time has its body tried with a placeholder in the table. If that was
marked in between, and the body matches, the match is a seed and grows. -/
theorem answerFirst_cases (h : node.answerFirst call id s = .done (m, t)) :
    ∃ first u, node.eval call (s.remember s.cursor id (.placeholder s.cursor)) = .done (first, u) ∧
      ((((u.memo.get? s.cursor id).map Match.status).getD .possible = .detected ∧ first.success = true ∧
          ∃ v k w, v.Alike (u.remember s.cursor id (first.withStatus .detected)) ∧
            growRounds call node id s.cursor (v.length - first.stop + 1) 1 (first.withStatus .detected) v =
              .done (k, m, w) ∧
            m.stop ≤ w.length ∧ t.Alike (w.seek m.stop)) ∨
        ((((u.memo.get? s.cursor id).map Match.status).getD .possible = .detected → first.success = false) ∧
          m = first.withStatus .impossible ∧ t.Alike (u.remember s.cursor id m))) := by
  obtain ⟨first, u, hfirst, hcase⟩ := answerFirst_eq_done_iff.1 h
  refine ⟨first, u, hfirst, ?_⟩
  split at hcase
  · rename_i hgrows
    obtain ⟨k, w, hgrow, hle, rfl⟩ := grow_eq_done_iff.1 hcase
    exact .inl ⟨hgrows.1, hgrows.2, _, k, w, (alike_emit ..).trans (alike_save ..), hgrow, hle, (alike_emit ..).seek _⟩
  · rename_i hgrows
    obtain ⟨rfl, rfl⟩ := hcase
    exact .inr ⟨fun hmark => by simpa [hmark] using hgrows, rfl, alike_save ..⟩

end Node

namespace Grammar

variable {g : Grammar} {id : NodeId} {node : Node} {depth : Nat} {s : Session}

theorem run_of_hidden (hnode : g.node? id = some node) (hhidden : node.hidden = true) :
    g.run (depth + 1) id s = node.eval (g.run depth) s :=
  answer_of_hidden hnode hhidden

theorem run_of_not_remembered (depth : Nat) (hnode : g.node? id = some node) (hhidden : node.hidden = false)
    (hnone : s.memo.get? s.cursor id = none) :
    ∃ s', s'.Alike s ∧ g.run (depth + 1) id s = node.answerFirst (g.run depth) id s' :=
  ⟨_, alike_emit .., answer_of_absent hnode hhidden hnone⟩

end Grammar

end Packrat
