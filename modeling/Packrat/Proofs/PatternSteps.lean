import Packrat.Proofs.Sessions

/-!
# The steps of a pattern

What the loops over the components of a pattern do with the first call that is left of them, if they end: how a
sequence, a choice and a repetition go on after it, and where they leave the session if they do not.
-/

namespace Packrat

open Session

namespace Pattern

variable {call : Evaluator} {body item : NodeId} {rest : List NodeId} {min rounds count n start : Nat}
  {max? : Option Nat} {s t : Session} {acc m : Match}

theorem matchRounds_cases (h : matchRounds call body min max? rounds count acc s = .done (n, m, t)) :
    ∃ rounds', rounds = rounds' + 1 ∧
      (mayRepeat max? count = false ∧ n = count ∧ m = acc ∧ t = s ∨
        mayRepeat max? count = true ∧ ∃ child u, call body s = .done (child, u) ∧
          (child.success = false ∧ n = count ∧ m = acc ∧ t = u.seek s.cursor ∨
            child.success = true ∧ ¬ s.cursor < child.stop ∧ n = max (count + 1) min ∧ m = acc.push child ∧ t = u ∨
            child.success = true ∧ s.cursor < child.stop ∧
              matchRounds call body min max? rounds' (count + 1) (acc.push child) u = .done (n, m, t))) := by
  cases rounds with
  | zero => nomatch h
  | succ rounds =>
    refine ⟨rounds, rfl, ?_⟩
    rw [matchRounds] at h
    cases hmay : mayRepeat max? count with
    | false =>
      obtain ⟨rfl, rfl, rfl⟩ := by simpa [hmay] using h
      exact .inl ⟨rfl, rfl, rfl, rfl⟩
    | true =>
      rw [if_pos hmay] at h
      obtain ⟨⟨child, u⟩, hchild, h⟩ := Run.bind_eq_done_iff.1 h
      refine .inr ⟨rfl, child, u, hchild, ?_⟩
      cases hsuccess : child.success with
      | false =>
        simp only [hsuccess, Bool.not_false, if_true] at h
        obtain ⟨v, hv, h⟩ := Run.bind_eq_done_iff.1 h
        obtain ⟨_, rfl⟩ := moveToR_eq_done_iff.1 hv
        obtain ⟨rfl, rfl, rfl⟩ := by simpa using h
        exact .inl ⟨rfl, rfl, rfl, rfl⟩
      | true =>
        simp only [hsuccess, Bool.not_true, Bool.false_eq_true, if_false] at h
        split at h
        · rename_i hprogress
          exact .inr (.inr ⟨rfl, hprogress, h⟩)
        · rename_i hstill
          obtain ⟨rfl, rfl, rfl⟩ := by simpa using h
          exact .inr (.inl ⟨rfl, hstill, rfl, rfl, rfl⟩)

theorem matchItems_cons_cases (h : matchItems call start (item :: rest) acc s = .done (m, t)) :
    ∃ child u, call item s = .done (child, u) ∧
      (child.success = false ∧ m = .fail start ∧ t = u.seek start ∨
        child.success = true ∧ matchItems call start rest (acc.push child) u = .done (m, t)) := by
  rw [matchItems] at h
  obtain ⟨⟨child, u⟩, hchild, h⟩ := Run.bind_eq_done_iff.1 h
  refine ⟨child, u, hchild, ?_⟩
  cases hsuccess : child.success with
  | false =>
    simp only [hsuccess, Bool.false_eq_true, if_false] at h
    obtain ⟨v, hv, h⟩ := Run.bind_eq_done_iff.1 h
    obtain ⟨_, rfl⟩ := moveToR_eq_done_iff.1 hv
    obtain ⟨rfl, rfl⟩ := Prod.mk.inj (Run.done.inj h)
    exact .inl ⟨rfl, rfl, rfl⟩
  | true =>
    simp only [hsuccess, if_true] at h
    exact .inr ⟨rfl, h⟩

theorem matchAlternatives_cons_cases (h : matchAlternatives call start (item :: rest) s = .done (m, t)) :
    ∃ child u, call item s = .done (child, u) ∧
      (child.success = true ∧ m = (Match.empty start).push child ∧ t = u ∨
        child.success = false ∧ matchAlternatives call start rest (u.seek start) = .done (m, t)) := by
  rw [matchAlternatives] at h
  obtain ⟨⟨child, u⟩, hchild, h⟩ := Run.bind_eq_done_iff.1 h
  refine ⟨child, u, hchild, ?_⟩
  cases hsuccess : child.success with
  | false =>
    simp only [hsuccess, Bool.false_eq_true, if_false] at h
    obtain ⟨v, hv, h⟩ := Run.bind_eq_done_iff.1 h
    obtain ⟨_, rfl⟩ := moveToR_eq_done_iff.1 hv
    exact .inr ⟨rfl, h⟩
  | true =>
    simp only [hsuccess, if_true] at h
    obtain ⟨rfl, rfl⟩ := Prod.mk.inj (Run.done.inj h)
    exact .inl ⟨rfl, rfl, rfl⟩

end Pattern

end Packrat
