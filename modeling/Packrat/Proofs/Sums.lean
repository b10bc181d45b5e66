import Packrat.Proofs.Ending
import Packrat.Proofs.SumGrowth

/-!
# What the reference grammars of sums parse

Both of them parse the longest sum at the beginning of an input. With a number on the right of the sign every round of
the growth takes one more term, and the sum is nested to the left. With a sum on the right the first round takes all the
terms that are left, since the operand is grown to the end of them on its own, and the sum is nested to the right.
-/

namespace Packrat

open Session

namespace Match

/-- The visible tree of a sum, with the first of the terms furthest below. -/
inductive LeftNested : List (List Char) → Match → Prop
  | number {digits : List Char} {number m : Match} (hnumber : number.IsNumber digits) (hm : m.IsExpression [number]) :
      LeftNested [digits] m
  | sum {terms : List (List Char)} {digits : List Char} {before number m : Match} (hbefore : LeftNested terms before)
      (hnumber : number.IsNumber digits) (hm : m.IsExpression [before, number]) : LeftNested (terms ++ [digits]) m

/-- The visible tree of a sum, with the last of the terms furthest below. The term on the left of a sign is the sum of
this one number. -/
inductive RightNested : List (List Char) → Match → Prop
  | number {digits : List Char} {number m : Match} (hnumber : number.IsNumber digits) (hm : m.IsExpression [number]) :
      RightNested [digits] m
  | sum {terms : List (List Char)} {digits : List Char} {number first rest m : Match} (hnumber : number.IsNumber digits)
      (hfirst : first.IsExpression [number]) (hrest : RightNested terms rest) (hm : m.IsExpression [first, rest]) :
      RightNested (digits :: terms) m

end Match

namespace Reference

variable {right : NodeId} {outcomes : Outcomes} {pending : Pending} {s t : Session} {m seed : Match}
  {depth position rounds iteration k : Nat}

def sumOutcomes (shape : List (List Char) → Match → Prop) : Outcomes :=
  fun id => if id = 2 then NumberOutcome else SumOutcome shape

/-! ## Sums with a number on the right -/

/-- Every round takes one more number, until the terms have come to their end. -/
theorem Growing.rounds_of_numbers (hg : (sums 2).WellFormed) (hout : outcomes 2 = NumberOutcome)
    (hp : ∀ q, ¬ pending q 2) (hs : Growing 2 outcomes pending position seed s)
    (h : sumNode.growRounds ((sums 2).run depth) 3 position rounds iteration seed s = .done (k, m, t)) :
    ∃ terms reach, Grown 2 outcomes pending position seed s terms reach m t ∧
      ∀ before, seed.LeftNested before → m.LeftNested (before ++ terms) := by
  have hright : IsOperand (outcomes 2) := by
    rw [hout]
    exact NumberOutcome.isOperand
  have hp' : ∀ q, ¬ (pending.add position 3) q 2 := fun q hq => hq.elim (hp q) fun heq => nomatch heq.2
  have hoperand : OperandFinds 2 outcomes (pending.add position 3) position depth := by
    intro d _ u r v hu _ hr
    exact number_finds hg hout hu hp' hr
  induction rounds generalizing iteration seed s with
  | zero => nomatch h
  | succ rounds ih =>
    obtain ⟨number, next, reach, v, hprolongs, hinput, hv, hnotes, h⟩ | ⟨reach, rfl, ht, hinput, hnotes, hterms⟩ :=
      hs.round hg hout hright hp hoperand h
    · obtain ⟨terms, reach', hgrown, hshape⟩ := ih hv h
      have hnumber := hprolongs.operand
      rw [hout] at hnumber
      cases hnumber with
      | none _ hfail => simp [hprolongs.success] at hfail
      | @number digits _ hdigits hne hnumber hstop =>
        have hterms := hgrown.terms
        rw [hinput, hprolongs.stop_eq, hstop] at hterms
        have htinput := hgrown.input_eq.trans hinput
        refine ⟨digits :: terms, reach', ⟨hgrown.growing, htinput, ?_, ?_⟩, fun before hbefore => ?_⟩
        · exact .term hprolongs.sign hdigits hne hterms
        · rw [hgrown.failureNotes_eq, hnotes, FailureNotes.add_of_ge (Nat.le_trans hterms.le.1 hterms.le.2)]
        · have hnested := hshape _ (.sum hbefore hnumber hprolongs.expression)
          rwa [List.append_assoc, List.singleton_append] at hnested
    · refine ⟨[], reach, ⟨ht, hinput, hterms, hnotes⟩, fun before hbefore => ?_⟩
      rwa [List.append_nil]

/-! ## Sums with a sum on the right -/

theorem Growing.rounds_at_end (hg : (sums 3).WellFormed) (hout : outcomes 2 = NumberOutcome)
    (hsum : outcomes 3 = SumOutcome Match.RightNested) (hp : ∀ q, ¬ pending q 2)
    (hoperand : OperandFinds 3 outcomes (pending.add position 3) position depth) {reach : Nat}
    (hs : Growing 3 outcomes pending position seed s) (hterms : TermsAt s.input seed.stop [] seed.stop reach)
    (h : sumNode.growRounds ((sums 3).run depth) 3 position rounds iteration seed s = .done (k, m, t)) :
    m = seed ∧ Growing 3 outcomes pending position seed t ∧ t.input = s.input ∧
      t.failureNotes = s.failureNotes.add reach := by
  have hright : IsOperand (outcomes 3) := by
    rw [hsum]
    exact SumOutcome.isOperand _
  cases rounds with
  | zero => nomatch h
  | succ rounds =>
    obtain ⟨r, next, reach', v, hprolongs, _⟩ | ⟨reach', rfl, ht, hinput, hnotes, hterms'⟩ :=
      hs.round hg hout hright hp hoperand h
    · have hr := hprolongs.operand
      rw [hsum] at hr
      obtain ⟨terms, stop, hsumAt, hne, _⟩ := hr.exists_sumAt
      have hbehind := hsumAt.behind_sign hprolongs.sign (hne.1 hprolongs.success)
      exact absurd (hterms.unique hbehind).1.symm (hne.1 hprolongs.success)
    · obtain ⟨_, _, rfl⟩ := hterms.unique hterms'
      exact ⟨rfl, ht, hinput, hnotes⟩

/-- The first round takes the whole sum behind the sign, if there is one. -/
theorem Growing.rounds_of_sums (hg : (sums 3).WellFormed) (hout : outcomes 2 = NumberOutcome)
    (hsum : outcomes 3 = SumOutcome Match.RightNested) (hp : ∀ q, ¬ pending q 2)
    (hoperand : OperandFinds 3 outcomes (pending.add position 3) position depth)
    (hs : Growing 3 outcomes pending position seed s) {number : Match} {digits : List Char}
    (hnumber : number.IsNumber digits) (hseed : seed.IsExpression [number])
    (h : sumNode.growRounds ((sums 3).run depth) 3 position rounds iteration seed s = .done (k, m, t)) :
    ∃ terms reach, Grown 3 outcomes pending position seed s terms reach m t ∧ m.RightNested (digits :: terms) := by
  have hright : IsOperand (outcomes 3) := by
    rw [hsum]
    exact SumOutcome.isOperand _
  cases rounds with
  | zero => nomatch h
  | succ rounds =>
    obtain ⟨r, next, reach, v, hprolongs, hinput, hv, hnotes, h⟩ | ⟨reach, rfl, ht, hinput, hnotes, hterms⟩ :=
      hs.round hg hout hright hp hoperand h
    · have hr := hprolongs.operand
      rw [hsum] at hr
      obtain ⟨terms, stop, hsumAt, hne, hfound⟩ := hr.exists_sumAt
      obtain ⟨hstop, hnested⟩ := hfound hprolongs.success
      have hterms := hsumAt.behind_sign hprolongs.sign (hne.1 hprolongs.success)
      rw [← hstop, ← hprolongs.stop_eq] at hterms
      obtain ⟨rfl, ht, htinput, htnotes⟩ := hv.rounds_at_end hg hout hsum hp hoperand (hinput ▸ hterms.last) h
      rw [hnotes, FailureNotes.add_of_le (Nat.le_refl reach)] at htnotes
      exact ⟨terms, reach, ⟨ht, htinput.trans hinput, hterms, htnotes⟩, .sum hnumber hseed hnested hprolongs.expression⟩
    · exact ⟨[], reach, ⟨ht, hinput, hterms, hnotes⟩, .number hnumber hseed⟩

/-! ## Parses -/

/-- The rule of sums with a number on the right finds the longest sum, nested to the left. -/
theorem left_sum_finds (hs : s.Charted (sums 2) (sumOutcomes Match.LeftNested) .none)
    (h : (sums 2).run depth 3 s = .done (m, t)) : s.Finds (sums 2) (sumOutcomes Match.LeftNested) .none 3 m t := by
  have hg : (sums 2).WellFormed := expression.built.wellFormed
  refine sum_finds hg rfl rfl hs (fun _ hp => hp) (fun hp => hp) ?_ h
  intro d _ seed number m digits u v rounds iteration k hu hnumber hseed hgrowth
  obtain ⟨terms, reach, hgrown, hnested⟩ := hu.rounds_of_numbers hg rfl (fun _ hp => hp) hgrowth
  exact ⟨terms, reach, hgrown, hnested [digits] (.number hnumber hseed)⟩

/-- The rule of sums with a sum on the right finds the longest sum, nested to the right. By induction on the depth of
the calls: the operand on the right is called behind the rule itself and behind all pending calls. -/
theorem right_sum_finds (hs : s.Charted (sums 3) (sumOutcomes Match.RightNested) pending)
    (hp : ∀ q id, pending q id → id = 3 ∧ q < s.cursor) (h : (sums 3).run depth 3 s = .done (m, t)) :
    s.Finds (sums 3) (sumOutcomes Match.RightNested) pending 3 m t := by
  have hg : (sums 3).WellFormed := rightExpression.built.wellFormed
  induction depth using Nat.strong_induction_on generalizing s m t pending with
  | _ depth ih =>
    have hnumbers : ∀ q, ¬ pending q 2 := fun q hq => nomatch (hp q 2 hq).1
    have hfirst : ¬ pending s.cursor 3 := fun hq => Nat.lt_irrefl _ (hp _ _ hq).2
    refine sum_finds hg rfl rfl hs hnumbers hfirst ?_ h
    intro d hd seed number m digits u v rounds iteration k hu hnumber hseed hgrowth
    refine hu.rounds_of_sums hg rfl rfl hnumbers ?_ hnumber hseed hgrowth
    intro d' hd' w r x hw hbehind hr
    refine ih d' (hd'.trans hd) hw (fun q id hq => ?_) hr
    rcases hq with hq | ⟨rfl, rfl⟩
    · exact ⟨(hp q id hq).1, (hp q id hq).2.trans hbehind⟩
    · exact ⟨rfl, hbehind⟩

theorem parse_sum {shape : List (List Char) → Match → Prop} (hg : (sums right).WellFormed)
    (hcycle : (sums right).NoHiddenCycle)
    (hfinds : ∀ {depth s m t}, s.Charted (sums right) (sumOutcomes shape) .none →
      (sums right).run depth 3 s = .done (m, t) → s.Finds (sums right) (sumOutcomes shape) .none 3 m t)
    (input : String) (options : Options) :
    ∃ o terms reach, (sums right).parse options 3 input = .done o ∧
      SumAt input.toList.toArray 0 terms o.position reach ∧ (o.success = true ↔ terms ≠ []) ∧
        (o.success = true → shape terms o.result) ∧
          o.furthestFailure? = ((Session.start input options).failureNotes.add reach).furthest? := by
  have hstart := Charted.start (sums right) (sumOutcomes shape) input options
  have hcontains : (sums right).contains 3 = true := rfl
  obtain ⟨m, t, h⟩ := Grammar.matchAt_ends hg hcycle hstart.toSound hcontains
  have hparse : (sums right).parse options 3 input = .done (.ofSession m t) := by
    rw [Grammar.parse, h]
    rfl
  rw [Grammar.matchAt, if_pos hcontains] at h
  have hanswered := (Grammar.answered_of_run hg hstart.toSound h).2
  obtain ⟨reach, hfound, hnotes⟩ := (hfinds hstart h).found
  obtain ⟨terms, stop, hsumAt, hsuccess, hok⟩ := SumOutcome.exists_sumAt hfound
  have hstop : stop = t.cursor := by
    rw [hanswered.cursor_eq]
    cases hsucceeds : m.success with
    | true => exact (hok hsucceeds).1.symm
    | false =>
      have hnone : terms = [] := Decidable.not_not.1 (mt hsuccess.2 (Bool.eq_false_iff.1 hsucceeds))
      subst hnone
      cases hsumAt with
      | none => exact (hanswered.placed.failure hsucceeds).1.symm
  subst hstop
  exact ⟨.ofSession m t, terms, reach, hparse, hsumAt, hsuccess, fun hsuccess => (hok hsuccess).2,
    congrArg FailureNotes.furthest? hnotes⟩

/-- The right-recursive sums are parsed exactly, and nested to the right: a match succeeds if and only if the input
begins with a digit, it ends where the longest sum at the beginning of the input does, and its visible tree is that of
the terms of this sum. Left-recursive sums are parsed up to the same place, with the same furthest failure. -/
theorem right_expression_parses_sums (input : String) (options : Options) :
    ∃ o o', rightExpression.build.grammar.parse options rightExpression.build.start input = .done o ∧
      expression.build.grammar.parse options expression.build.start input = .done o' ∧
        (o.success = true ↔ ∃ c, input.toList.head? = some c ∧ '0' ≤ c ∧ c ≤ '9') ∧
          (o.success = true → ∃ terms, IsLongestSum input.toList terms ∧ o.position = (sumText terms).length ∧
            o.result.RightNested terms) ∧
            o.success = o'.success ∧ o.position = o'.position ∧ o.furthestFailure? = o'.furthestFailure? := by
  obtain ⟨o, terms, reach, hparse, hsum, hsuccess, hnested, hfurthest⟩ := parse_sum rightExpression.built.wellFormed
    rightExpression.noHiddenCycle (fun hs h => right_sum_finds hs (fun _ _ hp => hp.elim) h) input options
  obtain ⟨o', terms', reach', hparse', hsum', hsuccess', _, hfurthest'⟩ := parse_sum expression.built.wellFormed
    expression.noHiddenCycle left_sum_finds input options
  obtain ⟨rfl, hposition, rfl⟩ := hsum.unique hsum'
  have hsame : o.success = o'.success := Bool.eq_iff_iff.2 (hsuccess.trans hsuccess'.symm)
  refine ⟨o, o', hparse, hparse', ?_, fun hok => ?_, hsame, hposition, hfurthest.trans hfurthest'.symm⟩
  · rw [hsuccess, ← hsum.acceptsAt_iff]
    simp [CharClass.AcceptsAt, CharClass.accepts, List.head?_eq_getElem?]
  · obtain ⟨hlongest, hlength⟩ := hsum.isLongestSum (hsuccess.1 hok)
    rw [List.drop_zero] at hlongest
    rw [Nat.zero_add] at hlength
    exact ⟨terms, hlongest, hlength, hnested hok⟩

end Reference

end Packrat
