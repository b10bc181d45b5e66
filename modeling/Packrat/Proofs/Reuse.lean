import Packrat.Proofs.Pairing

/-!
# Sessions may be used again

Where left recursion is only direct, a first call of a rule leads to no pending rule. So all first calls at a
position of the input go the same way, whatever is in the table, and there is only one entry that can be
computed there. It does not matter then what has been matched in a session before, in which order, and what of
it has been forgotten: each match is the one that a session gives that has just been started.
-/

namespace Packrat

open Session

namespace Grammar

variable {g : Grammar} {input : Array Char} {pending pending' : Pending} {id : NodeId} {depth depth' : Nat}
  {s s' t t' u : Session} {m m' n : Match}

/-- The answer to a first call is the one that every other first call gives that ends. -/
theorem firstCall_paired (hg : g.WellFormed) (hdirect : g.DirectOnly) (hrun : g.RunsPaired input depth)
    (hvisible : g.isVisible id = true) (hs : s.Holds g (g.Certain input) pending) (hinput : s.input = input)
    (hlead : pending.LeadTo g s.cursor id) (hnone : s.memo.get? s.cursor id = none)
    (h : g.run (depth + 1) id s = .done (m, t)) (hn : g.FirstCall (g.Computed input) input s.cursor id n) :
    m = n ∧ t.Holds g (g.Certain input) (pending.add s.cursor id) := by
  obtain ⟨pending', depth', s', t', hs', hinput', hcursor', hlead', hnone', h'⟩ := hn
  cases depth' with
  | zero => nomatch h'
  | succ depth' =>
    obtain ⟨node, hnode⟩ := exists_node_of_visible hvisible
    have hhidden := (isVisible_iff hnode).1 hvisible
    have hnot := hs.not_pending_of_none hnone
    have hnot' := hs'.not_pending_of_none hnone'
    have hpending : Pending.Paired g s.cursor id pending pending' := {
      lead := hlead
      lead' := hlead'
      iff := fun hl => iff_of_false (hs.not_pending hdirect hlead hvisible hnot hl)
        (hs'.not_pending hdirect hlead' hvisible hnot' hl) }
    have hpaired : Session.Paired g input pending pending' s.cursor id s s' := {
      certain := hs
      computed := hs'
      input_eq := hinput
      input_eq' := hinput'
      cursor_eq := hcursor'.symm
      entry_eq := fun hl hp => absurd hp (hs.not_pending hdirect hlead hvisible hnot hl) }
    obtain ⟨u, hu, hfirst⟩ := run_of_not_remembered depth hnode hhidden hnone
    obtain ⟨u', hu', hfirst'⟩ := run_of_not_remembered depth' hnode hhidden (hcursor'.symm ▸ hnone')
    rw [hfirst] at h
    rw [hfirst'] at h'
    rw [← hu.cursor_eq] at hpending hpaired hnone hnone' ⊢
    rw [← hu.memo_eq] at hnone
    rw [← hu'.memo_eq] at hnone'
    exact answerFirst_paired hg hrun hnode hvisible hpending (hpaired.alike hu hu') hnone hnone' h h'

/-- A rule that is not pending is given the one entry that can be computed for it, from the table or anew. -/
theorem rule_paired (hg : g.WellFormed) (hdirect : g.DirectOnly) (hrun : g.RunsPaired input depth)
    (hvisible : g.isVisible id = true) (hp : Pending.Paired g s.cursor id pending pending')
    (hs : Session.Paired g input pending pending' s.cursor id s s') (hnot : ¬ pending s.cursor id)
    (h : g.run (depth + 1) id s = .done (m, t)) (h' : g.run depth' id s' = .done (m', t')) :
    m = m' ∧ Session.Paired g input pending pending' s.cursor id t t' := by
  have hnot' : ¬ pending' s'.cursor id := hs.cursor_eq ▸ fun hp' => hnot ((hp.iff (.refl ..)).2 hp')
  have hlead' : pending'.LeadTo g s'.cursor id := hs.cursor_eq ▸ hp.lead'
  have hanswered := (answered_of_run hg hs.certain.sound h).2
  have hanswered' := (answered_of_run hg hs.computed.sound h').2
  have hfirst' : g.FirstCall (g.Computed input) input s.cursor id m' :=
    hs.cursor_eq ▸ firstCall_of_run hs.computed hs.input_eq' hlead' hvisible hnot' h'
  have hleft : m = m' ∧ t.Holds g (g.Certain input) pending := by
    cases hmemo : s.memo.get? s.cursor id with
    | some memo =>
      obtain ⟨hm, _, _, _, ht⟩ := hs.certain.found hvisible hmemo h
      rw [if_neg (hs.certain.sound.settled hmemo hnot).status_ne] at hm
      exact ⟨hm.trans (hs.certain.right hmemo hnot m' hfirst').symm, ht⟩
    | none =>
      have hsame : ∀ n, g.FirstCall (g.Computed input) input s.cursor id n →
          m = n ∧ t.Holds g (g.Certain input) (pending.add s.cursor id) := fun n hn =>
        firstCall_paired hg hdirect hrun hvisible hs.certain hs.input_eq hp.lead hmemo h hn
      have hentry := (run_remembered hvisible hs.certain.sound.cursor_lt h).1
      obtain ⟨heq, ht⟩ := hsame m' hfirst'
      exact ⟨heq, ht.finish hanswered.within.sound hentry fun n hn => (hsame n hn).1.symm⟩
  obtain ⟨rfl, ht⟩ := hleft
  refine ⟨rfl, ?_⟩
  exact {
    certain := ht
    computed := run_computes hg hs.computed hs.input_eq' hlead' h'
    input_eq := hanswered.within.input_eq.trans hs.input_eq
    input_eq' := hanswered'.within.input_eq.trans hs.input_eq'
    cursor_eq := hanswered.cursor_eq.trans hanswered'.cursor_eq.symm
    entry_eq := fun hl hqr => absurd hqr (hs.certain.not_pending hdirect hp.lead hvisible hnot hl) }

/-- Where left recursion is only direct, runs from paired sessions give the same matches. -/
theorem run_paired (hg : g.WellFormed) (hdirect : g.DirectOnly) (input : Array Char) (depth : Nat) :
    g.RunsPaired input depth := by
  -- the depth of the first run falls; the second one may be any run, also that by which an entry was computed
  induction depth with
  | zero =>
    intro pending pending' id s s' depth' m m' t t' hp hs h h'
    nomatch h
  | succ depth ih =>
    intro pending pending' id s s' depth' m m' t t' hp hs h h'
    obtain ⟨node, hnode⟩ := exists_node (answered_of_run hg hs.certain.sound h).1
    by_cases hvisible : g.isVisible id = true
    · by_cases hpending : pending s.cursor id
      · exact found_paired hvisible hs hpending h h'
      · exact rule_paired hg hdirect ih hvisible hp hs hpending h h'
    · have hhidden := (not_visible_iff hnode).1 hvisible
      cases depth' with
      | zero => nomatch h'
      | succ depth' =>
        rw [run_of_hidden hnode hhidden] at h h'
        exact eval_paired hg ih hnode hp hs rfl h h'

/-! ## Sessions in use -/

theorem paired_of_none (hs : s.Holds g (g.Certain input) .none) (hs' : s'.Holds g (g.Computed input) .none)
    (hinput : s.input = input) (hinput' : s'.input = input) (hcursor : s.cursor = s'.cursor) (id : NodeId) :
    Pending.Paired g s.cursor id .none .none ∧ Session.Paired g input .none .none s.cursor id s s' :=
  ⟨⟨fun _ _ hp => hp.elim, fun _ _ hp => hp.elim, fun _ => Iff.rfl⟩,
    ⟨hs, hs', hinput, hinput', hcursor, fun _ hp => hp.elim⟩⟩

/-- All that is in the table of a session in use has been computed, and is all that can be computed. -/
theorem Reached.holds (hg : g.WellFormed) (hdirect : g.DirectOnly) (hs : g.Reached s) :
    s.Holds g (g.Certain s.input) .none ∧ s.Holds g (g.Computed s.input) .none := by
  induction hs with
  | start input options => exact ⟨.start g _ input options, .start g _ input options⟩
  | @matched s t m id _ h ih =>
    obtain ⟨depth, h⟩ := h
    have hinput := (answered_of_run hg ih.1.sound h).2.within.input_eq
    obtain ⟨hp, hpaired⟩ := paired_of_none ih.1 ih.2 rfl rfl rfl id
    obtain ⟨_, ht⟩ := run_paired hg hdirect s.input depth _ _ id s s depth m m t t hp hpaired h h
    rw [hinput]
    exact ⟨ht.certain, ht.computed⟩
  | refused hs h ih =>
    obtain rfl := hs.eq_of_refused hg h
    exact ih
  | moved _ h ih =>
    obtain ⟨hle, rfl⟩ := eq_seek_of_moveTo h
    exact ⟨ih.1.of_eq rfl rfl hle, ih.2.of_eq rfl rfl hle⟩
  | advanced _ h ih =>
    obtain ⟨hle, rfl⟩ := eq_seek_of_next h
    exact ⟨ih.1.of_eq rfl rfl hle, ih.2.of_eq rfl rfl hle⟩
  | @forgot s id _ ih => exact ⟨ih.1.forget id, ih.2.forget id⟩

/-- Two sessions in use over the same input, at the same place, give the same match. -/
theorem Reached.matches_agree (hg : g.WellFormed) (hdirect : g.DirectOnly) (hs : g.Reached s) (hs' : g.Reached s')
    (hinput : s.input = s'.input) (hcursor : s.cursor = s'.cursor) (h : g.Matches id s m t)
    (h' : g.Matches id s' n u) : m = n ∧ t.cursor = u.cursor := by
  obtain ⟨depth, h⟩ := h
  obtain ⟨depth', h'⟩ := h'
  have hcomputed := (hs'.holds hg hdirect).2
  rw [← hinput] at hcomputed
  obtain ⟨hp, hpaired⟩ := paired_of_none (hs.holds hg hdirect).1 hcomputed rfl hinput.symm hcursor id
  obtain ⟨hmatch, ht⟩ := run_paired hg hdirect s.input depth _ _ id s s' depth' m n t u hp hpaired h h'
  exact ⟨hmatch, ht.cursor_eq⟩

/-- Suppose that left recursion is only direct. Then, whatever has been matched in a session before, wherever the
cursor has been, and whatever has been forgotten, the match of a node is the one that it has in a session over the
same input that has just been started, with the same statuses all over its tree, and it leaves the cursor at the
same place. If no cycle of leftmost components is all hidden, then both of them end. -/
theorem Reached.match_eq_fresh (hg : g.Built) (hdirect : g.DirectOnly) (hs : g.Reached s) (input : String)
    (options : Options) (hinput : s.input = (Session.start input options).input) (id : NodeId) :
    (∀ m t n u, g.Matches id s m t → g.Matches id ((Session.start input options).seek s.cursor) n u →
      m = n ∧ t.cursor = u.cursor) ∧
    (g.NoHiddenCycle → g.contains id = true → ∃ m t u, g.matchAt id s = .done (m, t) ∧
      g.matchAt id ((Session.start input options).seek s.cursor) = .done (m, u) ∧ t.cursor = u.cursor) := by
  have hle : s.cursor ≤ (Session.start input options).length :=
    length_eq hinput ▸ (hs.sound hg.wellFormed).cursor_le
  have hfresh : g.Reached ((Session.start input options).seek s.cursor) :=
    .moved (.start input options) (moveTo_of_le hle)
  have hagree : ∀ m t n u, g.Matches id s m t → g.Matches id ((Session.start input options).seek s.cursor) n u →
      m = n ∧ t.cursor = u.cursor := by
    intro m t n u h h'
    exact hs.matches_agree hg.wellFormed hdirect hfresh hinput rfl h h'
  refine ⟨hagree, fun hcycle hid => ?_⟩
  obtain ⟨m, t, h⟩ := matchAt_ends hg.wellFormed hcycle (hs.sound hg.wellFormed) hid
  obtain ⟨n, u, h'⟩ := matchAt_ends hg.wellFormed hcycle (hfresh.sound hg.wellFormed) hid
  obtain ⟨rfl, hcursor⟩ := hagree m t n u (matches_of_matchAt h) (matches_of_matchAt h')
  exact ⟨m, t, u, h, h', hcursor⟩

/-- The sum `1+2` is matched and forgotten, while the numbers in it stay in the table. It is then matched again as
in a session that has just been started. -/
theorem sum_match_eq_fresh : ∃ s m t u, Reference.expression.build.grammar.Reached s ∧
    s.memo.get? 0 3 = none ∧ (s.memo.get? 0 2).isSome = true ∧
      Reference.expression.build.grammar.matchAt 3 s = .done (m, t) ∧
      Reference.expression.build.grammar.matchAt 3 ((Session.start "1+2" {}).seek s.cursor) = .done (m, u) ∧
      t.cursor = u.cursor := by
  obtain ⟨m₀, t₀, h₀, hnumber⟩ := exists_matches (by decide +kernel :
    (Reference.expression.build.grammar.matchAt 3 (Session.start "1+2" {})).Yields False False
      fun a => (a.2.memo.get? 0 2).isSome = true)
  have hwithin := h₀.within Reference.expression.built.wellFormed (.start "1+2" {})
  have hreached : Reference.expression.build.grammar.Reached ((t₀.seek 0).forget 3) :=
    .forgot (.moved (.matched (.start "1+2" {}) h₀) (moveTo_of_le (Nat.zero_le _)))
  have hid : Reference.expression.build.grammar.contains 3 = true := by decide
  obtain ⟨m, t, u, h, h', hcursor⟩ := (Reached.match_eq_fresh Reference.expression.built
    Reference.expression.directOnly hreached "1+2" {} hwithin.input_eq 3).2 Reference.expression.noHiddenCycle hid
  refine ⟨_, m, t, u, hreached, ?_, ?_, h, h', hcursor⟩
  · exact MemoTable.get?_erase_self t₀.memo 0 3
  · rw [Session.forget, MemoTable.get?_erase, if_neg (by simp)]
    exact hnumber

end Grammar

end Packrat
