import Packrat.Proofs.Contexts
import Packrat.Proofs.Growth
import Packrat.Proofs.ReferenceGrammars

/-!
# Matching ends

In a grammar without a cycle of hidden nodes every call ends, whatever other recursion there is, and at
every depth from some depth on. The depth that `Grammar.matchAt` allows is enough.
-/

namespace Packrat

open Session

namespace Grammar

variable {g : Grammar} {id : NodeId} {s : Session}

/-- The depth that a match is given is enough, and so is every greater one. -/
theorem run_ends (hg : g.WellFormed) (hcycle : g.NoHiddenCycle) (hs : s.Sound g .none) (hid : id < g.size) :
    ∃ m t, ∀ depth, g.depthBound s.length ≤ depth → g.run depth id s = .done (m, t) := by
  have hrun : (g.run (g.depthBound s.length) id s).Yields False False
      fun a => Answered g .none (g.Nullable id) s a.1 a.2 :=
    run_answered hg (.inr hcycle) hid hs (.inr (g.weight_lt_depthBound id s))
  obtain ⟨⟨m, t⟩, h, _⟩ := hrun.exists_done
  exact ⟨m, t, fun depth hle => run_mono h hle⟩

theorem matchAt_ends (hg : g.WellFormed) (hcycle : g.NoHiddenCycle) (hs : s.Sound g .none)
    (hid : g.contains id = true) : ∃ m t, g.matchAt id s = .done (m, t) := by
  obtain ⟨m, t, h⟩ := run_ends hg hcycle hs (contains_iff.1 hid)
  refine ⟨m, t, ?_⟩
  rw [matchAt, if_pos hid]
  exact h _ (Nat.le_refl _)

/-- If no cycle of leftmost components is all hidden, every call in every session in use ends: from some
depth on all runs give the same answer, and this is what `matchAt` gives. Whatever its session, a grow loop
of such a run, or of any other one, accepts no more attempts than there are characters after the seed. -/
theorem Reached.match_ends (hg : g.Built) (hcycle : g.NoHiddenCycle) (hs : g.Reached s)
    (hid : g.contains id = true) :
    (∃ m t enough, (∀ depth, enough ≤ depth → g.run depth id s = .done (m, t)) ∧
      g.matchAt id s = .done (m, t)) ∧
    ∀ depth (node : Node) rule initial rounds seed u n m t,
      node.growRounds (g.run depth) rule initial rounds 1 seed u = .done (n, m, t) →
        n ≤ u.length - seed.stop := by
  refine ⟨?_, fun depth node rule initial rounds seed u n m t h => growRounds_le h⟩
  obtain ⟨m, t, h⟩ := run_ends hg.wellFormed hcycle (hs.sound hg.wellFormed) (contains_iff.1 hid)
  refine ⟨m, t, g.depthBound s.length, h, ?_⟩
  rw [matchAt, if_pos hid]
  exact h _ (Nat.le_refl _)

/-- Sums end, in a session that has just been started. -/
theorem sum_match_ends : ∃ m t enough, ∀ depth, enough ≤ depth →
    Reference.expression.build.grammar.run depth 3 (Session.start "1+2" {}) = .done (m, t) := by
  have hid : Reference.expression.build.grammar.contains 3 = true := by decide
  obtain ⟨⟨m, t, enough, h, _⟩, _⟩ := Reached.match_ends Reference.expression.built
    Reference.expression.noHiddenCycle (.start "1+2" {}) hid
  exact ⟨m, t, enough, h⟩

end Grammar

end Packrat
