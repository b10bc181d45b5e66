import Packrat.Proofs.TracedRuns

/-!
# The analysis of a grammar covers its runs

What is found out about a grammar before anything is matched is borne out by every match: a node that is called
before a character has been taken is a leftmost component of its caller, a rule that is called again at a position
at which it is still being evaluated is left-recursive, one that grows is directly so, and a node that matches the
empty text is nullable.
-/

namespace Packrat

open Session

namespace Grammar

variable {g : Grammar} {id : NodeId} {s t : Session} {m : Match}

/-- However a run ends, and in all calls that are made in its course: a node that is called while the cursor is
where the calling one began is a leftmost component of it, and a rule whose placeholder is found, and gets its mark,
is left-recursive. Before and after each of these calls only left-recursive rules are marked in the memo table. -/
theorem Reached.left_recursion_is_covered (hg : g.Built) (hs : g.Reached s) (depth : Nat) (id : NodeId) :
    (∀ rest n u, g.Calls depth id s (rest + 1) n u → ∀ c v, Consults (fun call => g.answer call n u) (g.run rest) c v →
      v.cursor = u.cursor → c ∈ g.leftmost n) ∧
    ∀ rest n u, g.Calls depth id s rest n u →
      (∀ memo, u.remembered? n = some memo → memo.status = .possible → g.isLeftRecursive n = true) ∧
        u.memo.Marked g ∧ ∀ m v, g.run rest n u = .done (m, v) → v.memo.Marked g := by
  have hmet := hs.met hg.wellFormed id
  constructor
  · intro rest n u hu c v hv
    obtain ⟨_, hu⟩ := hu.met hg.wellFormed hmet
    exact (permitted_of_consults hg.wellFormed hu hv).2
  · intro rest n u hu
    obtain ⟨_, hu⟩ := hu.met hg.wellFormed hmet
    refine ⟨fun memo hmemo hpossible => ?_, hu.marked, fun m v => run_marks hg.wellFormed rest _ n u m v hu⟩
    exact isLeftRecursive_of_path (hu.path hmemo hpossible)

/-- In a sum the left operand is called while the rule is still being evaluated at the same position. -/
theorem sum_left_recursion_is_covered :
    ∃ u memo, Reference.expression.build.grammar.Calls 4 3 (Session.start "1+2" {}) 1 3 u ∧
      u.remembered? 3 = some memo ∧ memo.status = .possible ∧
      Reference.expression.build.grammar.isLeftRecursive 3 = true := by
  have hstart : (Session.start "1+2" {}).Sound Reference.expression.build.grammar .none := sound_start ..
  have hvisible : Reference.expression.build.grammar.isVisible 3 = true := by decide
  have hbegin := hstart.begin hvisible
  have hcalls : Reference.expression.build.grammar.Calls 4 3 (Session.start "1+2" {}) 1 3
      ((Session.start "1+2" {}).remember 0 3 (.placeholder 0)) := by
    refine .inside (c := 6) (consults_of_fault (e := .unknownNode 6) ?_
      (answer_ne_fault Reference.expression.built.wellFormed hstart 3 (by decide))) <|
      .inside (c := 5) (consults_of_fault (e := .unknownNode 5) ?_
      (answer_ne_fault Reference.expression.built.wellFormed hbegin 2 (by decide))) <|
      .inside (c := 3) (consults_of_fault (e := .unknownNode 3) ?_
      (answer_ne_fault Reference.expression.built.wellFormed hbegin 1 (by decide))) (.self ..)
    · change (Evaluator.answering _ _ _ _ _ _ >>= _ >>= _ >>= _) = _
      unfold Evaluator.answering
      rw [if_pos ⟨rfl, rfl⟩]
      rfl
    · change (Evaluator.answering _ _ _ _ _ _ >>= _ >>= _) = _
      unfold Evaluator.answering
      rw [if_pos ⟨rfl, rfl⟩]
      rfl
    · change (Evaluator.answering _ _ _ _ _ _ >>= _ >>= _) = _
      unfold Evaluator.answering
      rw [if_pos ⟨rfl, rfl⟩]
      rfl
  have hcovered := Reached.left_recursion_is_covered Reference.expression.built (.start "1+2" {}) 4 3
  have hmemo : ((Session.start "1+2" {}).remember 0 3 (.placeholder 0)).remembered? 3 = some (.placeholder 0) := rfl
  exact ⟨_, _, hcalls, hmemo, rfl, (hcovered.2 _ _ _ hcalls).1 _ hmemo rfl⟩

/-- However a run ends, and in all calls that are made in its course: if a rule begins to grow that is not directly
left-recursive, its first attempt is as long as the seed and is the last one, and the call gives the seed. In what
has been recorded when the run is over, all events of such a rule are those of growths of this kind, so that only
directly left-recursive rules have attempts accepted. -/
theorem Reached.only_direct_recursion_grows (hg : g.Built) (hs : g.Reached s) (depth : Nat) (id : NodeId) :
    (∀ rest r u node seed v, g.Calls depth id s (rest + 1) r u → g.BeginsToGrow rest node r u seed v →
      g.isDirectlyLeftRecursive r = false →
      ∃ attempt w, node.eval (g.run rest) ((v.emit (.growAttempt 1) node.label u.cursor seed.stop).seek u.cursor) =
          .done (attempt, w) ∧
        attempt.success = true ∧ attempt.stop = seed.stop ∧
        g.run (rest + 1) r u = .done (seed,
          ((w.emit (.growReject 1) node.label u.cursor seed.stop).emit (.growTerminate 0) node.label u.cursor
            seed.stop).seek seed.stop)) ∧
    ∀ m t history, g.run depth id s = .done (m, t) → t.history? = some history → ∀ e ∈ history,
      ∀ r, g.isVisible r = true → g.label r = e.label →
        (g.isDirectlyLeftRecursive r = false → e.kind.fruitless = true) ∧
          ∀ n, e.kind = .growAccept n → g.isDirectlyLeftRecursive r = true := by
  constructor
  · intro rest r u node seed v hu hgrow hnot
    obtain ⟨_, hu⟩ := hu.met hg.wellFormed (hs.met hg.wellFormed id)
    refine hgrow.run_of_not_direct hg.wellFormed hu.sound fun hpath => ?_
    simp [isDirectlyLeftRecursive_of_path hpath] at hnot
  · intro m t history h hhistory e he r hr hlabel
    have hlicensed := (((hs.matched ⟨depth, h⟩).traced hg).events history hhistory e he).2 r hr hlabel
    refine ⟨hlicensed, fun n hn => ?_⟩
    by_contra hnot
    have hfruitless := hlicensed (by simpa using hnot)
    rw [hn] at hfruitless
    nomatch hfruitless

/-- `P <- Q "+" / [0-9]` and `Q <- P` -/
def roundabout : Grammar := ⟨#[{ pattern := .charClass .digit }, { pattern := .literal "+" },
  { pattern := .rule 5, name? := some "P" }, { pattern := .rule 2, name? := some "Q" }, { pattern := .sequence [3, 1] },
  { pattern := .choice [4, 0] }]⟩

theorem roundabout_built : roundabout.Built :=
  ⟨[.add (.charClass .digit), .add (.literal "+"), .reserve "P" false, .reserve "Q" false, .add (.sequence [3, 1]),
    .add (.choice [4, 0]), .define 2 5, .define 3 2], rfl⟩

/-- The digit of `1` is a seed of the first rule, and stays its match. -/
theorem roundabout_does_not_grow : ∃ node seed v t,
    roundabout.BeginsToGrow 9 node 2 (Session.start "1" {}) seed v ∧ roundabout.isDirectlyLeftRecursive 2 = false ∧
      roundabout.run 10 2 (Session.start "1" {}) = .done (seed, t) := by
  have htrial : ((⟨.rule 5, some "P", false⟩ : Node).eval (roundabout.run 9)
      ((Session.start "1" {}).remember 0 2 (.placeholder 0))).Yields False False
      fun a => ((a.2.memo.get? 0 2).map Match.status).getD .possible = .detected ∧ a.1.success = true := by
    decide +kernel
  obtain ⟨⟨first, u⟩, hfirst, hmark, hsuccess⟩ := htrial.exists_done
  have hgrow : roundabout.BeginsToGrow 9 ⟨.rule 5, some "P", false⟩ 2 (Session.start "1" {})
      (first.withStatus .detected) _ := ⟨rfl, rfl, rfl, first, u, hfirst, hmark, hsuccess, rfl, rfl⟩
  have hnot : roundabout.isDirectlyLeftRecursive 2 = false := by decide
  obtain ⟨_, _, _, _, _, hrun⟩ := (Reached.only_direct_recursion_grows roundabout_built (.start "1" {}) 10 2).1
    9 2 _ _ _ _ (.self ..) hgrow hnot
  exact ⟨_, _, _, _, hgrow, hnot, hrun⟩

/-- In every session in use, a match of the empty text is that of a nullable node, so that any other node takes
a character whenever it matches. -/
theorem Reached.nullability_is_sound (hg : g.Built) (hs : g.Reached s) (h : g.Matches id s m t)
    (hsuccess : m.success = true) :
    (m.start = m.stop → g.isNullable id = true) ∧
      (g.isNullable id = false → m.start < m.stop ∧ s.cursor < t.cursor) := by
  obtain ⟨_, hanswered⟩ := h.answered hg.wellFormed (hs.sound hg.wellFormed)
  have hstart := hanswered.placed.start_eq
  have hempty : m.start = m.stop → g.isNullable id = true := fun heq =>
    (hanswered.placed.null hsuccess (heq.symm.trans hstart)).isNullable
  refine ⟨hempty, fun hnot => ?_⟩
  have hne : m.start ≠ m.stop := fun heq => by simp [hempty heq] at hnot
  have hle := hanswered.placed.start_le_stop
  have hcursor := hanswered.cursor_eq
  omega

/-- `A <- A "x" / ""` -/
def manyX : Grammar := ⟨#[{ pattern := .rule 4, name? := some "A" }, { pattern := .literal "x" },
  { pattern := .sequence [0, 1] }, { pattern := .literal "" }, { pattern := .choice [2, 3] }]⟩

theorem manyX_built : manyX.Built :=
  ⟨[.reserve "A" false, .add (.literal "x"), .add (.sequence [0, 1]), .add (.literal ""), .add (.choice [2, 3]),
    .define 0 4], rfl⟩

/-- The rule matches the empty text in front of a `y`. -/
theorem manyX_nullability_is_sound : ∃ m t, manyX.Matches 0 (Session.start "y" {}) m t ∧ m.success = true ∧
    m.start = m.stop ∧ manyX.isNullable 0 = true := by
  obtain ⟨m, t, h, hsuccess, hempty⟩ := exists_matches
    (by decide +kernel : (manyX.matchAt 0 (Session.start "y" {})).Yields False False
      fun a => a.1.success = true ∧ a.1.start = a.1.stop)
  have hsound := Reached.nullability_is_sound manyX_built (.start "y" {}) h hsuccess
  exact ⟨m, t, h, hsuccess, hempty, hsound.1 hempty⟩

end Grammar

end Packrat
