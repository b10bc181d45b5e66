import Packrat.Proofs.Charts
import Packrat.Proofs.Outlines
import Packrat.Proofs.PatternSteps
import Packrat.Proofs.ReferenceGrammars
import Packrat.Proofs.SumTexts

/-!
# Numbers in sums

The parts of a sum without left recursion, as they are matched in the reference grammars: the sign, the digits and the
rule of numbers. A number is found wherever there is a digit, takes all the digits there are, and has been looked for
as far as the first character behind them.
-/

namespace Packrat

open Session Pattern

namespace Match

structure IsNumber (digits : List Char) (m : Match) : Prop where
  success : m.success = true
  hidden_eq : m.hidden = false
  label_eq : m.label = "Number"
  text_eq : m.text = String.ofList digits
  visibleChildren_eq : m.visibleChildren = []

theorem IsNumber.withStatus {digits : List Char} {m : Match} (h : m.IsNumber digits) (status : Status) :
    (m.withStatus status).IsNumber digits := ⟨h.success, h.hidden_eq, h.label_eq, h.text_eq, h.visibleChildren_eq⟩

end Match

theorem DigitsAt.text_eq {input : Array Char} {start stop : Nat} {digits : List Char}
    (h : DigitsAt input start digits stop) : textBetween input start stop = String.ofList digits := by
  have hstop := h.stop_eq
  have hdrop := h.drop_eq
  rw [textBetween, Array.toList_extract, List.extract_eq_take_drop, hdrop, hstop, Nat.add_sub_cancel_left,
    List.take_left]

/-- What the rule of numbers may give at a position, and how far the input is looked at for it. -/
inductive NumberOutcome (input : Array Char) (start : Nat) (m : Match) : Nat → Prop
  | none (hdigits : DigitsAt input start [] start) (hfail : m.success = false) : NumberOutcome input start m start
  | number {digits : List Char} {stop : Nat} (hdigits : DigitsAt input start digits stop) (hne : digits ≠ [])
      (hm : m.IsNumber digits) (hstop : m.stop = stop) : NumberOutcome input start m stop

theorem NumberOutcome.withStatus {input : Array Char} {start reach : Nat} {m : Match}
    (h : NumberOutcome input start m reach) (status : Status) :
    NumberOutcome input start (m.withStatus status) reach := by
  cases h with
  | none hdigits hfail => exact .none hdigits hfail
  | number hdigits hne hm hstop => exact .number hdigits hne (hm.withStatus status) hstop

namespace Reference

def sums (right : NodeId) : Grammar := ⟨(sumNodes right).toArray⟩

variable {right : NodeId} {pending : Pending} {s t : Session} {m : Match} {depth : Nat}

theorem run_sign (h : (sums right).run depth 4 s = .done (m, t)) :
    (s.input[s.cursor]? = some '+' ∧ m.success = true ∧ m.stop = s.cursor + 1 ∧ t.failureNotes = s.failureNotes ∨
      s.input[s.cursor]? ≠ some '+' ∧ m.success = false ∧ t.failureNotes = s.failureNotes.add s.cursor) ∧
      t.memo = s.memo ∧ m.unveiled = [] := by
  have hnode : (sums right).node? 4 = some { pattern := .literal "+" } := rfl
  obtain ⟨d, s', n, t', rfl, hs', hn, rfl, ht⟩ := Grammar.run_hidden_cases hnode rfl h
  rw [← hs'.input_eq, ← hs'.cursor_eq, ← hs'.memo_eq, ← hs'.failureNotes_eq, ht.memo_eq, ht.failureNotes_eq]
  rw [eval, matchLiteral] at hn
  have hlength : "+".length = 1 := rfl
  by_cases hsign : s'.input[s'.cursor]? = some '+'
  · have hcommon : s'.commonLength "+" = 1 := by
      rw [commonLength, show "+".toList = ['+'] from rfl, agreement, if_pos hsign]
      rfl
    rw [hcommon, hlength, if_neg (Nat.lt_irrefl 1)] at hn
    obtain ⟨u, hu, hn⟩ := Run.bind_eq_done_iff.1 hn
    obtain ⟨_, rfl⟩ := moveToR_eq_done_iff.1 hu
    obtain ⟨rfl, rfl⟩ := Prod.mk.inj (Run.done.inj hn)
    exact ⟨.inl ⟨hsign, rfl, rfl, failureNotes_emit ..⟩, memo_emit .., Match.unveiled_of_hidden rfl⟩
  · have hcommon : s'.commonLength "+" = 0 := by
      rw [commonLength, show "+".toList = ['+'] from rfl, agreement, if_neg hsign]
    rw [hcommon, hlength, if_pos Nat.zero_lt_one] at hn
    obtain ⟨rfl, rfl⟩ := Prod.mk.inj (Run.done.inj hn)
    exact ⟨.inr ⟨hsign, rfl, failureNotes_noteFailure ..⟩, rfl, Match.unveiled_of_hidden rfl⟩

theorem run_digit (h : (sums right).run depth 0 s = .done (m, t)) :
    ((∃ c, s.input[s.cursor]? = some c ∧ CharClass.digit.accepts c = true ∧ m.success = true ∧
        m.stop = s.cursor + 1 ∧ t.failureNotes = s.failureNotes) ∨
      ¬ CharClass.digit.AcceptsAt s.input s.cursor ∧ m.success = false ∧
        t.failureNotes = s.failureNotes.add s.cursor) ∧
      t.memo = s.memo ∧ m.unveiled = [] := by
  have hnode : (sums right).node? 0 = some { pattern := .charClass .digit } := rfl
  obtain ⟨d, s', n, t', rfl, hs', hn, rfl, ht⟩ := Grammar.run_hidden_cases hnode rfl h
  rw [← hs'.input_eq, ← hs'.cursor_eq, ← hs'.memo_eq, ← hs'.failureNotes_eq, ht.memo_eq, ht.failureNotes_eq]
  rw [eval, matchClass] at hn
  split at hn
  · rename_i hend
    obtain ⟨rfl, rfl⟩ := Prod.mk.inj (Run.done.inj hn)
    refine ⟨.inr ⟨?_, rfl, failureNotes_noteFailure ..⟩, rfl, Match.unveiled_of_hidden rfl⟩
    rintro ⟨c, hc, _⟩
    rw [peek?, hc] at hend
    cases hend
  · rename_i c hc
    split at hn
    · rename_i hdigit
      obtain ⟨u, hu, hn⟩ := Run.bind_eq_done_iff.1 hn
      obtain ⟨_, rfl⟩ := moveToR_eq_done_iff.1 hu
      obtain ⟨rfl, rfl⟩ := Prod.mk.inj (Run.done.inj hn)
      have hstop : (Match.leaf s'.cursor (String.singleton c)).stop = s'.cursor + 1 := by simp
      exact ⟨.inl ⟨c, hc, hdigit, rfl, hstop, failureNotes_emit ..⟩, memo_emit .., Match.unveiled_of_hidden rfl⟩
    · rename_i hdigit
      obtain ⟨rfl, rfl⟩ := Prod.mk.inj (Run.done.inj hn)
      refine ⟨.inr ⟨?_, rfl, failureNotes_noteFailure ..⟩, rfl, Match.unveiled_of_hidden rfl⟩
      rintro ⟨c', hc', hdigit'⟩
      obtain rfl := Option.some.inj (hc.symm.trans hc')
      exact hdigit hdigit'

/-- The rounds of digits, by induction on their number: the digits before the cursor are in `acc`. -/
theorem rounds_of_digits (hg : (sums right).WellFormed) {rounds count n : Nat} {acc : Match}
    (hs : s.Sound (sums right) pending) (hacc : acc.success = true) (hstop : acc.stop = s.cursor)
    (hbelow : acc.visibleChildren = [])
    (h : matchRounds ((sums right).run depth) 0 1 none rounds count acc s = .done (n, m, t)) :
    ∃ digits, DigitsAt s.input s.cursor digits m.stop ∧ n = count + digits.length ∧ m.success = true ∧
      m.visibleChildren = [] ∧ t.memo = s.memo ∧ t.failureNotes = s.failureNotes.add m.stop := by
  induction rounds generalizing count acc s with
  | zero => nomatch h
  | succ rounds ih =>
    obtain ⟨_, hrounds, ⟨hfull, _⟩ | ⟨_, child, u, hchild, hcase⟩⟩ := matchRounds_cases h
    · cases hfull
    · obtain rfl := Nat.succ.inj hrounds
      have hwithin := (Grammar.answered_of_run hg hs hchild).2
      obtain ⟨⟨c, hc, hdigit, hsuccess, hnext, hnotes⟩ | ⟨hnone, hfail, hnotes⟩, hmemo, hunveiled⟩ := run_digit hchild
      · rcases hcase with ⟨hfail, _⟩ | ⟨_, hstill, _⟩ | ⟨_, _, h⟩
        · simp [hsuccess] at hfail
        · exact absurd (hnext ▸ Nat.lt_succ_self _) hstill
        · have hcursor : u.cursor = s.cursor + 1 := hwithin.cursor_eq.trans hnext
          have hkeeps : (acc.push child).success = true := hacc
          have hpush : (acc.push child).stop = u.cursor := hnext.trans hcursor.symm
          have hpushed : (acc.push child).visibleChildren = [] := by
            rw [Match.visibleChildren_push, hbelow, hunveiled, List.append_nil]
          obtain ⟨digits, hdigits, rfl, hm, hmbelow, htmemo, htnotes⟩ :=
            ih hwithin.within.sound hkeeps hpush hpushed h
          rw [hwithin.within.input_eq, hcursor] at hdigits
          refine ⟨c :: digits, .digit hc hdigit hdigits, ?_, hm, hmbelow, htmemo.trans hmemo, htnotes.trans ?_⟩
          · rw [List.length_cons]
            omega
          · rw [hnotes]
      · rcases hcase with ⟨_, rfl, rfl, rfl⟩ | ⟨hsuccess, _⟩ | ⟨hsuccess, _⟩
        · rw [hstop]
          exact ⟨[], .none hnone, rfl, hacc, hbelow, hmemo, hnotes⟩
        · simp [hfail] at hsuccess
        · simp [hfail] at hsuccess

/-- The digits by themselves: all that there are, and at least one. -/
theorem run_digits (hg : (sums right).WellFormed) (hs : s.Sound (sums right) pending)
    (h : (sums right).run depth 1 s = .done (m, t)) :
    ∃ digits stop, DigitsAt s.input s.cursor digits stop ∧ (m.success = true ↔ digits ≠ []) ∧
      (m.success = true → m.stop = stop) ∧ m.visibleChildren = [] ∧ m.hidden = true ∧ t.memo = s.memo ∧
        t.failureNotes = s.failureNotes.add stop := by
  have hnode : (sums right).node? 1 = some { pattern := .repetition 0 1 none } := rfl
  obtain ⟨d, s', n, t', rfl, hs', hn, rfl, ht⟩ := Grammar.run_hidden_cases hnode rfl h
  rw [← hs'.input_eq, ← hs'.cursor_eq, ← hs'.memo_eq, ← hs'.failureNotes_eq, ht.memo_eq, ht.failureNotes_eq]
  rw [eval, matchRepetition] at hn
  obtain ⟨⟨count, all, u⟩, hrounds, hn⟩ := Run.bind_eq_done_iff.1 hn
  obtain ⟨digits, hdigits, rfl, hsuccess, hbelow, hmemo, hnotes⟩ :=
    rounds_of_digits hg (hs.alike hs'.toAlike) rfl rfl rfl hrounds
  refine ⟨digits, all.stop, hdigits, ?_⟩
  dsimp only at hn
  rw [Nat.zero_add] at hn
  by_cases hempty : digits.length < 1
  · rw [if_pos hempty] at hn
    obtain ⟨v, hv, hn⟩ := Run.bind_eq_done_iff.1 hn
    obtain ⟨_, rfl⟩ := moveToR_eq_done_iff.1 hv
    obtain ⟨rfl, rfl⟩ := Prod.mk.inj (Run.done.inj hn)
    have hnil : digits = [] := List.length_eq_zero_iff.1 (Nat.lt_one_iff.1 hempty)
    exact ⟨by simp [hnil], fun h => (nomatch h), rfl, rfl, hmemo, hnotes⟩
  · rw [if_neg hempty] at hn
    obtain ⟨rfl, rfl⟩ := Prod.mk.inj (Run.done.inj hn)
    have hne : digits ≠ [] := fun hnil => hempty (by simp [hnil])
    exact ⟨⟨fun _ => hne, fun _ => hsuccess⟩, fun _ => rfl, hbelow, rfl, hmemo, hnotes⟩

/-- A trial of the rule of numbers leaves the table as it is. -/
theorem eval_number (hg : (sums right).WellFormed) {node : Node} (hnode : (sums right).node? 2 = some node)
    (hs : s.Sound (sums right) pending) (h : node.eval ((sums right).run depth) s = .done (m, t)) :
    t.memo = s.memo ∧ ∃ reach, NumberOutcome s.input s.cursor m reach ∧ t.failureNotes = s.failureNotes.add reach := by
  have hanswered := Grammar.answered_of_eval hg hnode hs h
  obtain rfl : { pattern := .rule 1, name? := some "Number" } = node := Option.some.inj hnode
  obtain ⟨s', n, t', hs', hn, rfl, ht⟩ := Node.eval_cases h
  rw [eval, matchRule_eq] at hn
  obtain ⟨⟨body, u⟩, hbody, hn⟩ := Run.bind_eq_done_iff.1 hn
  obtain ⟨rfl, rfl⟩ := Prod.mk.inj (Run.done.inj hn)
  obtain ⟨digits, stop, hdigits, hsuccess, hstop, hbelow, hhidden, hmemo, hnotes⟩ :=
    run_digits hg (hs.alike hs'.toAlike) hbody
  rw [Match.ofBody_of_hidden hhidden] at hanswered ⊢
  rw [hs'.input_eq, hs'.cursor_eq] at hdigits
  refine ⟨ht.memo_eq.trans (hmemo.trans hs'.memo_eq), stop, ?_, ?_⟩
  · by_cases hne : digits = []
    · subst hne
      obtain rfl := hdigits.stop_eq
      exact .none hdigits (by simpa using mt hsuccess.1)
    · have hok := hsuccess.2 hne
      have htext := (hanswered.placed.spells hok).fits.text_eq
      refine .number hdigits hne ⟨hok, rfl, rfl, ?_, hbelow⟩ (hstop hok)
      rw [htext, hanswered.placed.start_eq, ← hdigits.text_eq]
      exact congrArg _ (hstop hok)
  · rw [ht.failureNotes_eq, hnotes, hs'.failureNotes_eq]

/-- The rule of numbers finds a number, or that there is none, in the table or by trying. -/
theorem number_finds {outcomes : Outcomes} (hg : (sums right).WellFormed) (hout : outcomes 2 = NumberOutcome)
    (hs : s.Charted (sums right) outcomes pending) (hp : ∀ q, ¬ pending q 2)
    (h : (sums right).run depth 2 s = .done (m, t)) : s.Finds (sums right) outcomes pending 2 m t := by
  have hnode : (sums right).node? 2 = some { pattern := .rule 1, name? := some "Number" } := rfl
  cases hmemo : s.memo.get? s.cursor 2 with
  | some memo => exact hs.finds hg hnode rfl (hp _) hmemo h
  | none =>
    have hwithin := (Grammar.answered_of_run hg hs.toSound h).2.within
    obtain ⟨d, s', rfl, hs', hfirst⟩ := Grammar.run_first_cases hnode rfl hmemo h
    have hs₁ := hs.eventsApart hs'
    have hvisible : (sums right).isVisible 2 = true := rfl
    have hstart := hs₁.begin hvisible
    obtain ⟨first, u, htrial, hcase⟩ := Node.answerFirst_eq_done_iff.1 hfirst
    have htried := (Grammar.answered_of_eval hg hnode hstart.toSound htrial).within
    obtain ⟨humemo, reach, hnumber, hunotes⟩ := eval_number hg hnode hstart.toSound htrial
    have hu := hstart.of_entries htried.sound htried.input_eq (fun _ _ _ => by rw [humemo]) (.inr ⟨reach, hunotes⟩)
    have hunmarked : ((u.memo.get? s'.cursor 2).map Match.status).getD .possible ≠ .detected := by
      rw [humemo, memo_remember, MemoTable.get?_insert_self hs₁.toSound.cursor_lt]
      exact nofun
    rw [if_neg fun hgrows => hunmarked hgrows.1] at hcase
    obtain ⟨rfl, rfl⟩ := hcase
    apply Finds.eventsApart _ hs'
    refine hu.finish hwithin.sound htried.input_eq hunotes ?_ (input_save ..) (failureNotes_save ..) ?_ fun q r hne => ?_
    · rw [hout]
      exact hnumber.withStatus _
    · rw [memo_save]
      exact MemoTable.get?_insert_self htried.cursor_lt
    · rw [memo_save, MemoTable.get?_insert_of_ne hne]

end Reference

end Packrat
