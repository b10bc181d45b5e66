import Packrat.Proofs.SumTrials

/-!
# The growth of a sum

The first match of the rule of sums is a number, and as the rule has called itself, the match is a seed. Every accepted
attempt puts a sign and an operand behind the longest match so far; the last attempt shows that the terms have come to
their end. So the rule finds the whole sum that stands at a position, and has looked at the input as far as that takes,
once it is known what the attempts add up to.
-/

namespace Packrat

open Session

/-- What the rule of sums may give at a position: nothing, or the sum that stands there, as a tree of some shape. -/
inductive SumOutcome (shape : List (List Char) → Match → Prop) (input : Array Char) (start : Nat) (m : Match) :
    Nat → Prop
  | none (hdigits : DigitsAt input start [] start) (hfail : m.success = false) : SumOutcome shape input start m start
  | sum {terms : List (List Char)} {below : List Match} {stop reach : Nat} (hsum : SumAt input start terms stop reach)
      (hne : terms ≠ []) (hm : m.IsExpression below) (hstop : m.stop = stop) (hshape : shape terms m) :
      SumOutcome shape input start m reach

theorem SumOutcome.isOperand (shape : List (List Char) → Match → Prop) : IsOperand (SumOutcome shape) where
  hidden_eq h hsuccess := by
    cases h with
    | none _ hfail => simp [hfail] at hsuccess
    | sum _ _ hm => exact hm.hidden_eq
  none h hfail := by
    cases h with
    | none hdigits => exact ⟨hdigits, rfl⟩
    | sum _ _ hm => simp [hm.success] at hfail

theorem SumOutcome.exists_sumAt {shape : List (List Char) → Match → Prop} {input : Array Char} {start reach : Nat}
    {m : Match} (h : SumOutcome shape input start m reach) : ∃ terms stop, SumAt input start terms stop reach ∧
      (m.success = true ↔ terms ≠ []) ∧ (m.success = true → m.stop = stop ∧ shape terms m) := by
  cases h with
  | none hdigits hfail => exact ⟨[], start, .none hdigits, by simp [hfail], fun hok => by simp [hfail] at hok⟩
  | @sum terms _ stop _ hsum hne hm hstop hshape =>
    exact ⟨terms, stop, hsum, by simp [hm.success, hne], fun _ => ⟨hstop, hshape⟩⟩

namespace Reference

variable {right : NodeId} {outcomes : Outcomes} {pending : Pending} {s t : Session} {m committed : Match}
  {depth position rounds iteration k : Nat} {shape : List (List Char) → Match → Prop}

theorem Prolongs.withStatus {input : Array Char} {r : Match} {reach : Nat}
    (h : Prolongs right outcomes input committed r m reach) (status : Status) :
    Prolongs right outcomes input committed r (m.withStatus status) reach :=
  { h with expression := h.expression.withStatus status }

theorem Prolongs.not_le {input : Array Char} {r : Match} {reach : Nat}
    (h : Prolongs right outcomes input committed r m reach) : ¬ (m.success = true → m.stop ≤ committed.stop) := by
  intro hle
  have hstop := hle h.expression.success
  rw [h.stop_eq] at hstop
  exact absurd h.lt (Nat.not_lt.2 hstop)

/-- The longest match so far stays what it is while the table is used, wherever the cursor is. -/
theorem Growing.of_charted (hs : Growing right outcomes pending position committed s)
    (ht : t.Charted (sums right) outcomes (pending.add position 3)) (hentry : t.memo.get? position 3 = some committed)
    (hinput : t.input = s.input) : Growing right outcomes pending position committed t :=
  ⟨ht, hentry, hs.status_eq, hs.expression, hinput ▸ hs.first⟩

theorem Growing.eventsApart (hs : Growing right outcomes pending position committed s) (h : t.EventsApart s) :
    Growing right outcomes pending position committed t := by
  refine hs.of_charted (hs.charted.eventsApart h) ?_ h.input_eq
  rw [h.memo_eq]
  exact hs.entry_eq

theorem Growing.of_save {below : List Match} {digits : List Char} {next : Nat}
    (hs : s.Charted (sums right) outcomes (pending.add position 3)) (hm : m.IsExpression below)
    (hplaced : m.Placed s.input position ((sums right).Nullable 3)) (hdigits : DigitsAt s.input position digits next)
    (hle : next ≤ m.stop) (label : String) :
    Growing right outcomes pending position (m.withStatus .detected)
      (s.save position 3 label (m.withStatus .detected)) where
  charted := hs.save rfl (hplaced.withStatus .detected) label
  entry_eq := by
    rw [memo_save, MemoTable.get?_insert_self]
    rw [hs.positions_eq]
    exact Nat.lt_succ_of_le (Nat.le_trans hplaced.start_le_stop hplaced.stop_le)
  status_eq := rfl
  expression := ⟨below, hm.withStatus .detected⟩
  first := by
    rw [input_save]
    exact ⟨digits, next, hdigits, hle⟩

/-- A round of the growth puts one more operand behind the longest match so far, or it is the last. -/
theorem Growing.round (hg : (sums right).WellFormed) (hout : outcomes 2 = NumberOutcome)
    (hright : IsOperand (outcomes right)) (hp : ∀ q, ¬ pending q 2)
    (hoperand : OperandFinds right outcomes (pending.add position 3) position depth)
    (hs : Growing right outcomes pending position committed s)
    (h : sumNode.growRounds ((sums right).run depth) 3 position (rounds + 1) iteration committed s = .done (k, m, t)) :
    (∃ r next reach v, Prolongs right outcomes s.input committed r next reach ∧ v.input = s.input ∧
      Growing right outcomes pending position next v ∧ v.failureNotes = s.failureNotes.add reach ∧
        sumNode.growRounds ((sums right).run depth) 3 position rounds (iteration + 1) next v = .done (k, m, t)) ∨
      ∃ reach, m = committed ∧ Growing right outcomes pending position committed t ∧ t.input = s.input ∧
        t.failureNotes = s.failureNotes.add reach ∧ TermsAt s.input committed.stop [] committed.stop reach := by
  have hnode : (sums right).node? 3 = some sumNode := rfl
  obtain ⟨hle, s', attempt, v, hs', hattempt, hcase⟩ := Node.growRounds_trial_cases h
  have hcharted := (hs.charted.seek hle).eventsApart hs'
  have hinput : s'.input = s.input := hs'.input_eq
  have hcursor : s'.cursor = position := hs'.cursor_eq
  have hgrowing := hs.of_charted hcharted (hs'.memo_eq ▸ hs.entry_eq) hinput
  have hanswered := Grammar.answered_of_eval hg hnode hcharted.toSound hattempt
  have hvinput : v.input = s.input := hanswered.within.input_eq.trans hinput
  obtain ⟨hv, hentry, reach, hnotes, hcome⟩ := hgrowing.attempt hg hout hright hp hoperand hcursor hattempt
  have hvgrowing := hs.of_charted hv hentry hvinput
  rw [hs'.failureNotes_eq, failureNotes_seek] at hnotes
  rw [hinput] at hcome
  rcases hcase with ⟨hstill, rfl, ht⟩ | ⟨hsuccess, hfurther, v', hv', h⟩
  · rcases hcome with ⟨r, hprolongs⟩ | ⟨hterms, _⟩
    · exact absurd hstill hprolongs.not_le
    · have hlast := hvgrowing.eventsApart ht
      exact .inr ⟨reach, rfl, hlast, ht.input_eq.trans hvinput, ht.failureNotes_eq.trans hnotes, hterms⟩
  · rcases hcome with ⟨r, hprolongs⟩ | ⟨_, hstill⟩
    · have hplaced : attempt.Placed v'.input position ((sums right).Nullable 3) := by
        rw [hv'.input_eq, hanswered.within.input_eq, ← hcursor]
        exact hanswered.placed
      have hv'growing := hvgrowing.eventsApart hv'
      obtain ⟨digits, next, hdigits, hnext⟩ := hv'growing.first
      refine .inl ⟨r, _, reach, _, hprolongs.withStatus .detected, ?_, ?_, ?_, h⟩
      · rw [input_save, hv'.input_eq, hvinput]
      · exact .of_save hv'growing.charted hprolongs.expression hplaced hdigits (hnext.trans (Nat.le_of_lt hfurther)) _
      · rw [failureNotes_save, hv'.failureNotes_eq, hnotes]
    · exact absurd (hstill hsuccess) (Nat.not_le.2 hfurther)

/-- The growth of `seed` in `s` has come to the end of the terms behind the seed. -/
structure Grown (right : NodeId) (outcomes : Outcomes) (pending : Pending) (position : Nat) (seed : Match) (s : Session)
    (terms : List (List Char)) (reach : Nat) (m : Match) (t : Session) : Prop where
  growing : Growing right outcomes pending position m t
  input_eq : t.input = s.input
  terms : TermsAt s.input seed.stop terms m.stop reach
  failureNotes_eq : t.failureNotes = s.failureNotes.add reach

def Grows (right : NodeId) (outcomes : Outcomes) (pending : Pending) (shape : List (List Char) → Match → Prop)
    (position depth : Nat) : Prop :=
  ∀ {seed number m : Match} {digits : List Char} {s t : Session} {rounds iteration k : Nat},
    Growing right outcomes pending position seed s → number.IsNumber digits → seed.IsExpression [number] →
      sumNode.growRounds ((sums right).run depth) 3 position rounds iteration seed s = .done (k, m, t) →
        ∃ terms reach, Grown right outcomes pending position seed s terms reach m t ∧ shape (digits :: terms) m

/-- What has grown out of the number at the cursor is the sum that stands there. -/
theorem grow_sum_finds {digits : List Char} {next : Nat} {seed number : Match} {u : Session}
    (hsum : outcomes 3 = SumOutcome shape) (hgrows : Grows right outcomes pending shape s.cursor depth)
    (hdigits : DigitsAt s.input s.cursor digits next) (hne : digits ≠ []) (hnumber : number.IsNumber digits)
    (hu : Growing right outcomes pending s.cursor seed u) (hseed : seed.IsExpression [number]) (hstop : seed.stop = next)
    (hinput : u.input = s.input) (hnotes : u.failureNotes = s.failureNotes.add next) (ht : t.Sound (sums right) pending)
    (h : sumNode.grow ((sums right).run depth) 3 s.cursor seed u = .done (m, t)) :
    s.Finds (sums right) outcomes pending 3 m t := by
  obtain ⟨k, w, hgrowth, _, rfl⟩ := Node.grow_eq_done_iff.1 h
  obtain ⟨terms, reach, hgrown, hshape⟩ := hgrows hu hnumber hseed hgrowth
  obtain ⟨below, hm⟩ := hgrown.growing.expression
  have hterms := hgrown.terms
  rw [hinput, hstop] at hterms
  have hle := Nat.le_trans hterms.le.1 hterms.le.2
  have hwnotes : w.failureNotes = s.failureNotes.add reach := by
    rw [hgrown.failureNotes_eq, hnotes, FailureNotes.add_of_ge hle]
  refine hgrown.growing.charted.finish ht (hgrown.input_eq.trans hinput) hwnotes ?_ (input_emit ..)
    (failureNotes_emit ..) ?_ fun q r _ => ?_
  · rw [hsum]
    exact .sum (.sum hdigits hne hterms) (List.cons_ne_nil _ _) hm rfl hshape
  · rw [memo_seek, memo_emit]
    exact hgrown.growing.entry_eq
  · rw [memo_seek, memo_emit]

/-- The first call of the rule finds the sum that stands at the cursor if its seed grows to the end of the terms. -/
theorem answerFirst_sum_finds (hg : (sums right).WellFormed) (hout : outcomes 2 = NumberOutcome)
    (hsum : outcomes 3 = SumOutcome shape) (hs : s.Charted (sums right) outcomes pending) (hp : ∀ q, ¬ pending q 2)
    (hgrows : Grows right outcomes pending shape s.cursor depth) (ht : t.Sound (sums right) pending)
    (h : sumNode.answerFirst ((sums right).run depth) 3 s = .done (m, t)) :
    s.Finds (sums right) outcomes pending 3 m t := by
  have hnode : (sums right).node? 3 = some sumNode := rfl
  have hvisible : (sums right).isVisible 3 = true := rfl
  have hstart := hs.begin hvisible
  obtain ⟨first, u, htrial, hcase⟩ := Node.answerFirst_eq_done_iff.1 h
  have htried := Grammar.answered_of_eval hg hnode hstart.toSound htrial
  have hinput : u.input = s.input := htried.within.input_eq
  have hplaced : first.Placed u.input s.cursor ((sums right).Nullable 3) := by
    rw [hinput]
    exact htried.placed
  have hentry : (s.remember s.cursor 3 (.placeholder s.cursor)).memo.get? s.cursor 3 =
      some (.placeholder s.cursor) := by
    rw [memo_remember, MemoTable.get?_insert_self hs.toSound.cursor_lt]
  obtain ⟨hu, ⟨marked, hmarked, hstatus⟩, number, reach, hnumber, hunotes, hsuccess, hfound⟩ :=
    first_trial hg hout hstart hp hentry htrial
  rw [cursor_remember] at hu hmarked hnumber
  rw [input_remember] at hnumber
  rw [failureNotes_remember] at hunotes
  have hmark : ((u.memo.get? s.cursor 3).map Match.status).getD .possible = .detected := by
    rw [hmarked, Option.map_some, hstatus]
    rfl
  cases hnumber with
  | none hdigits hfail =>
    have hfirstfail : first.success = false := hsuccess.trans hfail
    rw [if_neg fun hgrow => Bool.false_ne_true (hfirstfail.symm.trans hgrow.2)] at hcase
    obtain ⟨rfl, rfl⟩ := hcase
    refine hu.finish ht hinput hunotes ?_ (input_save ..) (failureNotes_save ..) ?_ fun q r hne => ?_
    · rw [hsum]
      exact .none hdigits hfirstfail
    · rw [memo_save]
      exact MemoTable.get?_insert_self htried.within.cursor_lt
    · rw [memo_save, MemoTable.get?_insert_of_ne hne]
  | @number digits _ hdigits hne hnumber hstop =>
    obtain ⟨hfirststop, hexpression⟩ := hfound hnumber.success
    rw [if_pos ⟨hmark, hexpression.success⟩] at hcase
    rw [hstop] at hfirststop
    have hseed := Growing.of_save hu hexpression hplaced (hinput.symm ▸ hdigits) hfirststop.ge sumNode.label
    have hnoted := eventsApart_emit (u.save s.cursor 3 sumNode.label (first.withStatus .detected)) .beginGrow
      sumNode.label first.start first.stop
    refine grow_sum_finds hsum hgrows hdigits hne hnumber (hseed.eventsApart hnoted) (hexpression.withStatus .detected)
      hfirststop ?_ ?_ ht hcase
    · rw [input_emit, input_save, hinput]
    · rw [failureNotes_emit, failureNotes_save, hunotes]

/-- The rule of sums finds the sum that stands at the cursor, in the table or by trying. -/
theorem sum_finds (hg : (sums right).WellFormed) (hout : outcomes 2 = NumberOutcome)
    (hsum : outcomes 3 = SumOutcome shape) (hs : s.Charted (sums right) outcomes pending) (hp : ∀ q, ¬ pending q 2)
    (hp' : ¬ pending s.cursor 3) (hgrows : ∀ d < depth, Grows right outcomes pending shape s.cursor d)
    (h : (sums right).run depth 3 s = .done (m, t)) : s.Finds (sums right) outcomes pending 3 m t := by
  have hnode : (sums right).node? 3 = some sumNode := rfl
  cases hmemo : s.memo.get? s.cursor 3 with
  | some memo => exact hs.finds hg hnode rfl hp' hmemo h
  | none =>
    have ht := (Grammar.answered_of_run hg hs.toSound h).2.within.sound
    obtain ⟨d, s', rfl, hs', hfirst⟩ := Grammar.run_first_cases hnode rfl hmemo h
    have hgrow : Grows right outcomes pending shape s'.cursor d := by
      rw [hs'.cursor_eq]
      exact hgrows d (Nat.lt_succ_self d)
    exact (answerFirst_sum_finds hg hout hsum (hs.eventsApart hs') hp hgrow ht hfirst).eventsApart hs'

end Reference

end Packrat
