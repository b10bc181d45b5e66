import Packrat.Proofs.Frozen
import Packrat.Proofs.Iteration

/-!
# Repetitions unfold

A repetition with a minimum matches as far as the sequence of that many copies of its body, with the repetition of the
remaining rounds behind them. Both call the body at the same positions, with the same memo table, until a round takes
no character. There the repetition stops, while the copies that are left are still called; but each of these calls
finds what the call before it has put into the table, and matches the empty text again.
-/

namespace Packrat

open Session Pattern

namespace Pattern

/-- With the minimum taken off the bounds, the rounds after the minimum are counted from zero. -/
theorem mayRepeat_sub (max? : Option Nat) (min count : Nat) :
    mayRepeat (max?.map (· - min)) count = mayRepeat max? (min + count) := by
  cases max? with
  | none => rfl
  | some max =>
    simp only [mayRepeat, Option.map_some, decide_eq_decide]
    omega

end Pattern

namespace Grammar

variable {g : Grammar} {body loop rest unfolded id : NodeId} {min rounds rounds' count n n' start k depth depth' : Nat}
  {max? : Option Nat} {s s' t t' u v : Session} {acc acc' child m m' : Match}

/-- The repetition without a minimum, called by itself, comes to the end of its rounds. -/
theorem run_optional (hg : g.WellFormed) (hrest : g.HasPattern rest (.repetition body 0 max?))
    (h : g.run depth rest s = .done (m, t)) :
    ∃ depth' s' rounds n acc v, s'.Alike s ∧
      matchRounds (g.run depth') body 0 max? rounds 0 (.empty s.cursor) s' = .done (n, acc, v) ∧
      m.success = true ∧ m.stop = acc.stop := by
  obtain ⟨depth', _, s', acc, _, _, rfl, hs', hacc, _, rfl, _⟩ := run_pattern hg hrest (by simp [Pattern.kind]) h
  rw [eval, matchRepetition, hs'.cursor_eq] at hacc
  obtain ⟨⟨n, acc', v⟩, hrounds, hacc⟩ := Run.bind_eq_done_iff.1 hacc
  simp only [Nat.not_lt_zero, if_false] at hacc
  obtain ⟨rfl, _⟩ := Prod.mk.inj (Run.done.inj hacc)
  exact ⟨depth', s', _, n, acc', v, hs', hrounds, matchRounds_success hrounds, rfl⟩

theorem run_in_step (hagree : s.AgreeOn (fun _ => True) s') (h : g.run depth id s = .done (m, t))
    (h' : g.run depth' id s' = .done (m', t')) : m = m' ∧ t.AgreeOn (fun _ => True) t' :=
  run_agrees (fun _ _ _ _ _ _ => trivial) trivial hagree h h'

/-- The rounds after the minimum are those of the repetition that is left when the minimum is taken off. -/
theorem rounds_after_minimum
    (h : matchRounds (g.run depth) body min max? rounds (min + count) acc s = .done (n, m, t))
    (h' : matchRounds (g.run depth') body 0 (max?.map (· - min)) rounds' count acc' s' = .done (n', m', t'))
    (hagree : s.AgreeOn (fun _ => True) s') (hacc : acc.stop = acc'.stop) : min ≤ n ∧ m.stop = m'.stop := by
  induction rounds generalizing count acc s rounds' acc' s' with
  | zero => nomatch h
  | succ rounds ih =>
    obtain ⟨_, hrounds, hcase⟩ := matchRounds_cases h
    obtain rfl := Nat.succ.inj hrounds
    obtain ⟨rounds', rfl, hcase'⟩ := matchRounds_cases h'
    rw [mayRepeat_sub] at hcase'
    rcases hcase with ⟨hfull, rfl, rfl, _⟩ | ⟨hmay, child, u, hchild, hcase⟩
    · rcases hcase' with ⟨_, rfl, rfl, _⟩ | ⟨hmay, _⟩
      · exact ⟨Nat.le_add_right _ _, hacc⟩
      · rw [hfull] at hmay
        cases hmay
    · rcases hcase' with ⟨hfull, _⟩ | ⟨_, child', u', hchild', hcase'⟩
      · rw [hmay] at hfull
        cases hfull
      · obtain ⟨rfl, hu⟩ := run_in_step hagree hchild hchild'
        rw [← hagree.cursor_eq] at hcase'
        rcases hcase with ⟨hfail, rfl, rfl, _⟩ | ⟨hsuccess, hstill, rfl, rfl, _⟩ | ⟨hsuccess, hprogress, hmore⟩
        · rcases hcase' with ⟨_, rfl, rfl, _⟩ | ⟨hsuccess, _⟩ | ⟨hsuccess, _⟩
          · exact ⟨Nat.le_add_right _ _, hacc⟩
          · simp [hfail] at hsuccess
          · simp [hfail] at hsuccess
        · rcases hcase' with ⟨hfail, _⟩ | ⟨_, _, rfl, rfl, _⟩ | ⟨_, hprogress, _⟩
          · simp [hfail] at hsuccess
          · exact ⟨Nat.le_max_right _ _, rfl⟩
          · exact absurd hprogress hstill
        · rcases hcase' with ⟨hfail, _⟩ | ⟨_, hstill, _⟩ | ⟨_, _, hmore'⟩
          · simp [hfail] at hsuccess
          · exact absurd hprogress hstill
          · have hpush : (acc.push child).stop = (acc'.push child).stop := rfl
            exact ih hmore hmore' hu hpush

/-- Once the body has matched the empty text, copies of it go on to do so, and so does the repetition behind them. -/
theorem copies_of_empty (hg : g.WellFormed) (hs : s.Sound g .none) (hbody : g.Matches body s child t)
    (hsuccess : child.success = true) (hstop : child.stop = s.cursor)
    (hrest : g.HasPattern rest (.repetition body 0 max?)) (hinput : u.input = s.input) (hcursor : u.cursor = s.cursor)
    (hkept : t.memo.Kept u.memo) (hacc : acc.success = true) (haccstop : acc.stop = s.cursor)
    (h : matchItems (g.run depth) start (List.replicate k body ++ [rest]) acc u = .done (m, v)) :
    m.success = true ∧ m.stop = s.cursor := by
  have hends : t.input = s.input ∧ t.cursor = s.cursor := by
    obtain ⟨_, hanswered⟩ := hbody.answered hg hs
    exact ⟨hanswered.within.input_eq, hanswered.cursor_eq.trans hstop⟩
  -- every further call of the body gives the same match and leaves the table as it is
  have hagain : ∀ {w w' : Session} {depth other}, w.input = s.input → w.cursor = s.cursor → t.memo.Kept w.memo →
      g.run depth body w = .done (other, w') →
        other = child ∧ w'.input = s.input ∧ w'.cursor = s.cursor ∧ w'.memo = w.memo := by
    intro w w' depth other hwinput hwcursor hwkept hw
    obtain ⟨x, hx, hxinput, hxcursor, hxmemo⟩ := hbody.replay hg hs hwinput hwcursor hwkept
    obtain ⟨rfl, rfl⟩ := hx.unique ⟨depth, hw⟩
    exact ⟨rfl, hxinput.trans hends.1, hxcursor.trans hends.2, hxmemo⟩
  induction k generalizing acc u with
  | zero =>
    rw [List.replicate_zero, List.nil_append] at h
    obtain ⟨repeated, w, hrepeated, h⟩ := matchItems_cons_cases h
    obtain ⟨_, u', _, _, _, _, hu', hrounds, hrsuccess, hrstop⟩ := run_optional hg hrest hrepeated
    have hend : repeated.stop = s.cursor := by
      rw [hrstop]
      obtain ⟨_, _, ⟨_, _, rfl, _⟩ | ⟨_, other, _, hother, hcase⟩⟩ := matchRounds_cases hrounds
      · exact hcursor
      · obtain ⟨rfl, _⟩ := hagain (hu'.input_eq.trans hinput) (hu'.cursor_eq.trans hcursor)
          (hu'.memo_eq ▸ hkept) hother
        rcases hcase with ⟨hfail, _⟩ | ⟨_, _, _, rfl, _⟩ | ⟨_, hprogress, _⟩
        · simp [hsuccess] at hfail
        · exact hstop
        · rw [hstop, hu'.cursor_eq, hcursor] at hprogress
          omega
    rcases h with ⟨hfail, _⟩ | ⟨_, h⟩
    · simp [hrsuccess] at hfail
    · rw [matchItems] at h
      obtain ⟨rfl, _⟩ := Prod.mk.inj (Run.done.inj h)
      exact ⟨hacc, hend⟩
  | succ k ih =>
    rw [List.replicate_succ, List.cons_append] at h
    obtain ⟨other, w, hother, h⟩ := matchItems_cons_cases h
    obtain ⟨rfl, hwinput, hwcursor, hwmemo⟩ := hagain hinput hcursor hkept hother
    rcases h with ⟨hfail, _⟩ | ⟨_, h⟩
    · simp [hsuccess] at hfail
    · have hpush : (acc.push other).success = true ∧ (acc.push other).stop = s.cursor := ⟨hacc, hstop⟩
      exact ih hwinput hwcursor (hwmemo ▸ hkept) hpush.1 hpush.2 h

/-- With `k` rounds missing to the minimum, and as many copies of the body left of the sequence. -/
theorem rounds_unfold (hg : g.WellFormed) (hs : s'.Sound g .none)
    (hrest : g.HasPattern rest (.repetition body 0 (max?.map (· - min)))) (hmax : ∀ max, max? = some max → min ≤ max)
    (hcount : count + k = min) (hagree : s.AgreeOn (fun _ => True) s') (hacc : acc.stop = s.cursor)
    (hacc' : acc'.success = true) (haccstop : acc'.stop = s.cursor)
    (h : matchRounds (g.run depth) body min max? rounds count acc s = .done (n, m, t))
    (h' : matchItems (g.run depth') start (List.replicate k body ++ [rest]) acc' s' = .done (m', t')) :
    n < min ∧ m' = .fail start ∨ min ≤ n ∧ m'.success = true ∧ m.stop = m'.stop := by
  induction k generalizing count acc s rounds acc' s' with
  | zero =>
    obtain rfl : count = min := by omega
    rw [List.replicate_zero, List.nil_append] at h'
    obtain ⟨repeated, w, hrepeated, h'⟩ := matchItems_cons_cases h'
    obtain ⟨_, u', _, _, accumulated, _, hu', hrounds, hrsuccess, hrstop⟩ := run_optional hg hrest hrepeated
    have hstart : s.AgreeOn (fun _ => True) u' :=
      hagree.of_eq rfl rfl rfl hu'.input_eq hu'.cursor_eq hu'.memo_eq
    have hlast : matchRounds (g.run depth) body count max? rounds (count + 0) acc s = .done (n, m, t) := h
    obtain ⟨hle, hstop⟩ := rounds_after_minimum hlast hrounds hstart (hacc.trans hagree.cursor_eq)
    rcases h' with ⟨hfail, _⟩ | ⟨_, h'⟩
    · simp [hrsuccess] at hfail
    · rw [matchItems] at h'
      obtain ⟨rfl, _⟩ := Prod.mk.inj (Run.done.inj h')
      exact .inr ⟨hle, hacc', hstop.trans hrstop.symm⟩
  | succ k ih =>
    rw [List.replicate_succ, List.cons_append] at h'
    obtain ⟨_, _, hcase⟩ := matchRounds_cases h
    have hmay : mayRepeat max? count = true := by
      cases max? with
      | none => rfl
      | some max =>
        have hle := hmax max rfl
        simp only [mayRepeat, decide_eq_true_eq]
        omega
    rcases hcase with ⟨hfull, _⟩ | ⟨_, child, u, hchild, hcase⟩
    · simp [hmay] at hfull
    · obtain ⟨child', u', hchild', h'⟩ := matchItems_cons_cases h'
      obtain ⟨rfl, hu⟩ := run_in_step hagree hchild hchild'
      obtain ⟨_, hanswered⟩ := answered_of_run hg hs hchild'
      have hcursor : (acc.push child).stop = u.cursor := by rw [hu.cursor_eq, hanswered.cursor_eq, Match.stop_push]
      have hpush : (acc'.push child).success = true := hacc'
      rcases hcase with ⟨hfail, rfl, rfl, _⟩ | ⟨hsuccess, hstill, rfl, rfl, _⟩ | ⟨hsuccess, _, hmore⟩
      · rcases h' with ⟨_, rfl, _⟩ | ⟨hsuccess, _⟩
        · exact .inl ⟨by omega, rfl⟩
        · simp [hfail] at hsuccess
      · -- the repetition ends here, and the copies that are left match the empty text
        rcases h' with ⟨hfail, _⟩ | ⟨_, h'⟩
        · simp [hfail] at hsuccess
        · have hstop : child.stop = s'.cursor := by
            have hle := hanswered.within.cursor_le
            rw [← hanswered.cursor_eq]
            have heq := hagree.cursor_eq
            have hend := hanswered.cursor_eq
            omega
          obtain ⟨hm', hmstop⟩ := copies_of_empty hg hs ⟨_, hchild'⟩ hsuccess hstop hrest hanswered.within.input_eq
            (hanswered.cursor_eq.trans hstop) (.refl _) hpush hstop h'
          exact .inr ⟨Nat.le_max_right _ _, hm', hstop.trans hmstop.symm⟩
      · rcases h' with ⟨hfail, _⟩ | ⟨_, h'⟩
        · simp [hfail] at hsuccess
        · have hcount' : count + 1 + k = min := by omega
          exact ih hanswered.within.sound hcount' hu hcursor hpush hcursor hmore h'

theorem unfolds_in_step (hg : g.WellFormed) (hs : s.Sound g .none) (hs' : s'.Sound g .none)
    (hagree : s.AgreeOn (fun _ => True) s') (hloop : g.HasPattern loop (.repetition body min max?))
    (hrest : g.HasPattern rest (.repetition body 0 (max?.map (· - min))))
    (hunfolded : g.HasPattern unfolded (.sequence (List.replicate min body ++ [rest])))
    (h : g.Matches loop s m t) (h' : g.Matches unfolded s' m' t') :
    m.success = m'.success ∧ m.stop = m'.stop ∧ t.cursor = t'.cursor := by
  have hmax : ∀ max, max? = some max → min ≤ max := by
    obtain ⟨node, hnode, hpattern⟩ := hloop
    rintro max rfl
    exact hg.min_le_max hnode hpattern
  have hends : t.cursor = m.stop ∧ t'.cursor = m'.stop :=
    ⟨(h.answered hg hs).2.cursor_eq, (h'.answered hg hs').2.cursor_eq⟩
  obtain ⟨depth, h⟩ := h
  obtain ⟨depth', h'⟩ := h'
  obtain ⟨d, _, u, a, _, _, rfl, hu, ha, _, rfl, _⟩ := run_pattern hg hloop (by simp [Pattern.kind]) h
  obtain ⟨d', _, u', a', _, _, rfl, hu', ha', _, rfl, _⟩ := run_pattern hg hunfolded (by simp [Pattern.kind]) h'
  rw [eval, matchRepetition] at ha
  obtain ⟨⟨n, b, v⟩, hrounds, ha⟩ := Run.bind_eq_done_iff.1 ha
  have hstart : u.AgreeOn (fun _ => True) u' :=
    hagree.of_eq hu.input_eq hu.cursor_eq hu.memo_eq hu'.input_eq hu'.cursor_eq hu'.memo_eq
  have hempty : (Match.empty u'.cursor).success = true ∧ (Match.empty u'.cursor).stop = u.cursor :=
    ⟨rfl, hstart.cursor_eq.symm⟩
  have hstep := rounds_unfold hg (hs'.alike hu') hrest hmax (Nat.zero_add min) hstart rfl hempty.1 hempty.2 hrounds ha'
  suffices hsame : a.success = a'.success ∧ a.stop = a'.stop by
    refine ⟨hsame.1, hsame.2, ?_⟩
    rw [hends.1, hends.2]
    exact hsame.2
  dsimp only at ha
  rcases hstep with ⟨hlt, rfl⟩ | ⟨hle, hsuccess, hstop⟩
  · rw [if_pos hlt] at ha
    obtain ⟨w, _, ha⟩ := Run.bind_eq_done_iff.1 ha
    obtain ⟨rfl, _⟩ := Prod.mk.inj (Run.done.inj ha)
    exact ⟨rfl, hstart.cursor_eq⟩
  · rw [if_neg (Nat.not_lt.2 hle)] at ha
    obtain ⟨rfl, _⟩ := Prod.mk.inj (Run.done.inj ha)
    exact ⟨(matchRounds_success hrounds).trans hsuccess.symm, hstop⟩

/-- A repetition with bounds unfolds. At every position of every input, in sessions that have just been started, it
matches if and only if the sequence of `min` copies of its body and the repetition of the rounds that are then left
does, and both end at the same place. If no cycle of leftmost components is all hidden, then both of them end. -/
theorem Built.repetition_unfolds (hg : g.Built) (hloop : g.HasPattern loop (.repetition body min max?))
    (hrest : g.HasPattern rest (.repetition body 0 (max?.map (· - min))))
    (hunfolded : g.HasPattern unfolded (.sequence (List.replicate min body ++ [rest]))) (input : String)
    (options options' : Options) {position : Nat} (hposition : position ≤ input.length) :
    (∀ m t m' t', g.Matches loop ((Session.start input options).seek position) m t →
      g.Matches unfolded ((Session.start input options').seek position) m' t' →
        m.success = m'.success ∧ m.stop = m'.stop ∧ t.cursor = t'.cursor) ∧
    (g.NoHiddenCycle → ∃ m t m' t',
      g.matchAt loop ((Session.start input options).seek position) = .done (m, t) ∧
        g.matchAt unfolded ((Session.start input options').seek position) = .done (m', t') ∧
          m.success = m'.success ∧ m.stop = m'.stop ∧ t.cursor = t'.cursor) := by
  have hsound : ∀ options, ((Session.start input options).seek position).Sound g .none := by
    intro options
    apply (sound_start g input options).seek
    simpa [Session.start, Session.length, String.length_toList] using hposition
  have hsame : ∀ m t m' t', g.Matches loop ((Session.start input options).seek position) m t →
      g.Matches unfolded ((Session.start input options').seek position) m' t' →
        m.success = m'.success ∧ m.stop = m'.stop ∧ t.cursor = t'.cursor := by
    intro m t m' t' h h'
    exact unfolds_in_step hg.wellFormed (hsound options) (hsound options') ⟨⟨rfl, rfl, fun _ _ => rfl⟩, rfl⟩ hloop
      hrest hunfolded h h'
  refine ⟨hsame, fun hcycle => ?_⟩
  have hcontains : ∀ {id pattern}, g.HasPattern id pattern → g.contains id = true := by
    rintro id pattern ⟨node, hnode, _⟩
    exact contains_iff.2 (lt_size_of_node? hnode)
  obtain ⟨m, t, h⟩ := matchAt_ends hg.wellFormed hcycle (hsound options) (hcontains hloop)
  obtain ⟨m', t', h'⟩ := matchAt_ends hg.wellFormed hcycle (hsound options') (hcontains hunfolded)
  exact ⟨m, t, m', t', h, h', hsame m t m' t' (matches_of_matchAt h) (matches_of_matchAt h')⟩

/-- `("a"?){2,4}` and `"a"? "a"? ("a"?){0,2}` -/
def fewAs : Grammar := ⟨#[{ pattern := .literal "a" }, { pattern := .repetition 0 0 (some 1) },
  { pattern := .repetition 1 2 (some 4) }, { pattern := .repetition 1 0 (some 2) }, { pattern := .sequence [1, 1, 3] }]⟩

theorem fewAs_built : fewAs.Built :=
  ⟨[.add (.literal "a"), .add (.repetition 0 0 (some 1)), .add (.repetition 1 2 (some 4)),
    .add (.repetition 1 0 (some 2)), .add (.sequence [1, 1, 3])], rfl⟩

/-- In front of the `b` of `ab` the first round takes no character, and is enough. -/
theorem fewAs_repetition_unfolds : ∃ m t m' t',
    fewAs.Matches 2 ((Session.start "ab" {}).seek 1) m t ∧ fewAs.Matches 4 ((Session.start "ab" {}).seek 1) m' t' ∧
      m.success = true ∧ m'.success = true ∧ m'.stop = 1 := by
  obtain ⟨m, t, h, hsuccess, hstop⟩ := exists_matches (by decide +kernel :
    (fewAs.matchAt 2 ((Session.start "ab" {}).seek 1)).Yields False False fun a => a.1.success = true ∧ a.1.stop = 1)
  obtain ⟨m', t', h', _⟩ := exists_matches (by decide +kernel :
    (fewAs.matchAt 4 ((Session.start "ab" {}).seek 1)).Yields False False fun _ => True)
  obtain ⟨hsame, hend, _⟩ := (Built.repetition_unfolds fewAs_built ⟨_, rfl, rfl⟩ ⟨_, rfl, rfl⟩ ⟨_, rfl, rfl⟩ "ab" {} {}
    (by decide : 1 ≤ "ab".length)).1 m t m' t' h h'
  exact ⟨m, t, m', t', h, h', hsuccess, hsame.symm.trans hsuccess, hend.symm.trans hstop⟩

end Grammar

end Packrat
