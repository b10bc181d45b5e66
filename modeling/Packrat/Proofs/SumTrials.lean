import Packrat.Proofs.Numbers

/-!
# Trials of a sum

The rule of sums is tried with an entry of its own in the table. At first this is a placeholder: the rule is marked,
and all that can match is a number. Later it is the longest sum so far: behind it a sign is looked for, and behind the
sign the operand on the right. If both are there the sum becomes longer; if not, the trial falls back on the number,
which is no longer than what there is already, and the terms that stand in the input have come to their end.
-/

namespace Packrat

open Session Pattern

namespace Match

structure IsExpression (below : List Match) (m : Match) : Prop where
  success : m.success = true
  hidden_eq : m.hidden = false
  label_eq : m.label = "Expression"
  visibleChildren_eq : m.visibleChildren = below

theorem IsExpression.withStatus {below : List Match} {m : Match} (h : m.IsExpression below) (status : Status) :
    (m.withStatus status).IsExpression below := ⟨h.success, h.hidden_eq, h.label_eq, h.visibleChildren_eq⟩

end Match

theorem NumberOutcome.ends {input : Array Char} {start next reach : Nat} {digits : List Char} {m : Match}
    (h : NumberOutcome input start m reach) (hdigits : DigitsAt input start digits next) :
    reach = next ∧ (m.success = true → m.stop = next) := by
  cases h with
  | none hnone hfail => exact ⟨(hnone.unique hdigits).2, fun hsuccess => by simp [hfail] at hsuccess⟩
  | number hfound _ _ hstop => exact ⟨(hfound.unique hdigits).2, fun _ => hstop.trans (hfound.unique hdigits).2⟩

structure IsOperand (outcome : Array Char → Nat → Match → Nat → Prop) : Prop where
  hidden_eq : ∀ {input start m reach}, outcome input start m reach → m.success = true → m.hidden = false
  none : ∀ {input start m reach}, outcome input start m reach → m.success = false →
    DigitsAt input start [] start ∧ reach = start

theorem NumberOutcome.isOperand : IsOperand NumberOutcome where
  hidden_eq h hsuccess := by
    cases h with
    | none _ hfail => simp [hfail] at hsuccess
    | number _ _ hm => exact hm.hidden_eq
  none h hfail := by
    cases h with
    | none hdigits => exact ⟨hdigits, rfl⟩
    | number _ _ hm => simp [hm.success] at hfail

namespace Reference

variable {right : NodeId} {outcomes : Outcomes} {pending : Pending} {s t : Session} {m committed : Match}
  {depth position : Nat}

def sumNode : Node := { pattern := .rule 6, name? := some "Expression" }

/-- The sequence of a sum, a sign and an operand is hidden: it passes on what its items have given. -/
theorem run_sequence_cases (h : (sums right).run depth 5 s = .done (m, t)) :
    ∃ d s' n t', depth = d + 1 ∧ s'.EventsApart s ∧
      matchItems ((sums right).run d) s.cursor [3, 4, right] (.empty s.cursor) s' = .done (n, t') ∧
      m.success = n.success ∧ m.stop = n.stop ∧ m.unveiled = n.visibleChildren ∧ t.EventsApart t' := by
  have hnode : (sums right).node? 5 = some { pattern := .sequence [3, 4, right] } := rfl
  obtain ⟨d, s', n, t', rfl, hs', hn, rfl, ht⟩ := Grammar.run_hidden_cases hnode rfl h
  rw [eval, hs'.cursor_eq] at hn
  exact ⟨d, s', n, t', rfl, hs', hn, rfl, rfl, Match.unveiled_of_hidden rfl, ht⟩

theorem eval_sum_cases (h : sumNode.eval ((sums right).run depth) s = .done (m, t)) :
    ∃ d s' n t', depth = d + 1 ∧ s'.EventsApart s ∧
      matchAlternatives ((sums right).run d) s.cursor [5, 2] s' = .done (n, t') ∧ m.success = n.success ∧
      m.stop = n.stop ∧ m.visibleChildren = n.visibleChildren ∧ m.hidden = false ∧ m.label = "Expression" ∧
      t.EventsApart t' := by
  have hnode : (sums right).node? 6 = some { pattern := .choice [5, 2] } := rfl
  obtain ⟨s₁, n₁, t₁, hs₁, hn₁, rfl, ht⟩ := Node.eval_cases h
  rw [sumNode, eval, matchRule_eq] at hn₁
  obtain ⟨⟨body, u⟩, hbody, hn₁⟩ := Run.bind_eq_done_iff.1 hn₁
  obtain ⟨rfl, rfl⟩ := Prod.mk.inj (Run.done.inj hn₁)
  obtain ⟨d, s', n, t', rfl, hs', hn, rfl, ht₁⟩ := Grammar.run_hidden_cases hnode rfl hbody
  rw [eval, hs'.cursor_eq, hs₁.cursor_eq] at hn
  rw [Match.ofBody_of_hidden (m := n.stamp _) rfl]
  exact ⟨d, s', n, t', rfl, hs'.trans hs₁, hn, rfl, rfl, rfl, rfl, rfl, ht.trans ht₁⟩

theorem alternatives_number (hg : (sums right).WellFormed) (hout : outcomes 2 = NumberOutcome)
    (hs : s.Charted (sums right) outcomes pending) (hp : ∀ q, ¬ pending q 2)
    (h : matchAlternatives ((sums right).run depth) s.cursor [2] s = .done (m, t)) :
    t.Charted (sums right) outcomes pending ∧ s.memo.Kept t.memo ∧ ∃ number reach,
      NumberOutcome s.input s.cursor number reach ∧ t.failureNotes = s.failureNotes.add reach ∧
        m.success = number.success ∧
          (number.success = true → m.stop = number.stop ∧ m.visibleChildren = [number]) := by
  obtain ⟨number, u, hnumber, hcase⟩ := matchAlternatives_cons_cases h
  have hwithin := (Grammar.answered_of_run hg hs.toSound hnumber).2.within
  obtain ⟨hu, reach, hfound, hnotes⟩ := number_finds hg hout hs hp hnumber
  rw [hout] at hfound
  rcases hcase with ⟨hsuccess, rfl, rfl⟩ | ⟨hfail, h⟩
  · refine ⟨hu, hwithin.kept, number, reach, hfound, hnotes, hsuccess.symm, fun _ => ⟨rfl, ?_⟩⟩
    cases hfound with
    | none _ hfail => simp [hsuccess] at hfail
    | number _ _ hm => rw [Match.visibleChildren_push, Match.unveiled_of_visible hm.hidden_eq]; rfl
  · rw [matchAlternatives] at h
    obtain ⟨rfl, rfl⟩ := Prod.mk.inj (Run.done.inj h)
    have hlength : s.cursor ≤ u.length := by
      rw [hwithin.length_eq]
      exact hs.cursor_le
    refine ⟨hu.seek hlength, hwithin.kept, number, reach, hfound, hnotes, hfail.symm, fun hsuccess => ?_⟩
    simp [hfail] at hsuccess

/-- A trial of a sum gives what its sequence gives, or a number if the sequence fails. -/
theorem eval_sum_items (hg : (sums right).WellFormed) (hout : outcomes 2 = NumberOutcome)
    (hs : s.Sound (sums right) pending) (hp : ∀ q, ¬ pending q 2)
    (h : sumNode.eval ((sums right).run depth) s = .done (m, t)) :
    m.hidden = false ∧ m.label = "Expression" ∧ ∃ d s' n u, d < depth ∧ s'.EventsApart s ∧
      matchItems ((sums right).run d) s.cursor [3, 4, right] (.empty s.cursor) s' = .done (n, u) ∧
      (n.success = true → m.success = true ∧ m.stop = n.stop ∧ m.visibleChildren = n.visibleChildren ∧
        t.EventsApart u) ∧
      (n.success = false → u.Charted (sums right) outcomes pending →
        t.Charted (sums right) outcomes pending ∧ u.memo.Kept t.memo ∧ ∃ number reach,
          NumberOutcome s.input s.cursor number reach ∧ t.failureNotes = u.failureNotes.add reach ∧
            m.success = number.success ∧
              (number.success = true → m.stop = number.stop ∧ m.visibleChildren = [number])) := by
  obtain ⟨d, s₁, n₁, t₁, rfl, hs₁, h, hsuccess, hstop, hbelow, hhidden, hlabel, ht⟩ := eval_sum_cases h
  obtain ⟨child, v, hchild, hcase⟩ := matchAlternatives_cons_cases h
  have hwithin := (Grammar.answered_of_run hg (hs.alike hs₁.toAlike) hchild).2.within
  obtain ⟨d, s', n, u, rfl, hs', hitems, hnsuccess, hnstop, hnbelow, hv⟩ := run_sequence_cases hchild
  rw [hs₁.cursor_eq] at hitems
  have hdepth : d < d + 1 + 1 := Nat.lt_succ_of_lt (Nat.lt_succ_self d)
  refine ⟨hhidden, hlabel, d, s', n, u, hdepth, hs'.trans hs₁, hitems, fun hok => ?_, fun hfail hu => ?_⟩
  · rcases hcase with ⟨_, rfl, rfl⟩ | ⟨hfail, _⟩
    · exact ⟨hsuccess, hstop.trans hnstop, by rw [hbelow, Match.visibleChildren_push, hnbelow]; rfl, ht.trans hv⟩
    · simp [hok, hfail] at hnsuccess
  · rcases hcase with ⟨hok, _⟩ | ⟨_, hnumber⟩
    · simp [hok, hfail] at hnsuccess
    · have hle : s.cursor ≤ v.length := by
        rw [hwithin.length_eq, hs₁.length_eq]
        exact hs.cursor_le
      have hinput : (v.seek s.cursor).input = s.input := hwithin.input_eq.trans hs₁.input_eq
      obtain ⟨ht₁, hkept, number, reach, hfound, hnotes, hmsuccess, hmstop⟩ :=
        alternatives_number hg hout ((hu.eventsApart hv).seek hle) hp hnumber
      rw [hinput] at hfound
      refine ⟨ht₁.eventsApart ht, ?_, number, reach, hfound, ?_, hsuccess.trans hmsuccess, fun hok => ?_⟩
      · rw [ht.memo_eq, ← hv.memo_eq]
        exact hkept
      · rw [ht.failureNotes_eq, hnotes, failureNotes_seek, hv.failureNotes_eq]
      · rw [hstop, hbelow]
        exact hmstop hok

/-- The first trial finds a placeholder, which it marks, and so it gives a number or fails. -/
theorem first_trial (hg : (sums right).WellFormed) (hout : outcomes 2 = NumberOutcome)
    (hs : s.Charted (sums right) outcomes (pending.add s.cursor 3)) (hp : ∀ q, ¬ pending q 2)
    (hentry : s.memo.get? s.cursor 3 = some (.placeholder s.cursor))
    (h : sumNode.eval ((sums right).run depth) s = .done (m, t)) :
    t.Charted (sums right) outcomes (pending.add s.cursor 3) ∧
      (∃ marked, t.memo.get? s.cursor 3 = some marked ∧ marked.status = .detected) ∧
      ∃ number reach, NumberOutcome s.input s.cursor number reach ∧ t.failureNotes = s.failureNotes.add reach ∧
        m.success = number.success ∧ (number.success = true → m.stop = number.stop ∧ m.IsExpression [number]) := by
  have hnode : (sums right).node? 3 = some sumNode := rfl
  have hp' : ∀ q, ¬ (pending.add s.cursor 3) q 2 := fun q hq => hq.elim (hp q) fun heq => nomatch heq.2
  obtain ⟨hhidden, hlabel, d, s', n, u, _, hs', hitems, _, hfallback⟩ := eval_sum_items hg hout hs.toSound hp' h
  obtain ⟨itself, v, hitself, hcase⟩ := matchItems_cons_cases hitems
  have hs₁ := hs.eventsApart hs'
  have hwithin := (Grammar.answered_of_run hg hs₁.toSound hitself).2.within
  have hfound : s'.memo.get? s'.cursor 3 = some (.placeholder s.cursor) := by rwa [hs'.memo_eq, hs'.cursor_eq]
  obtain ⟨⟨_, rfl, hmemo⟩ | ⟨hstatus, _⟩, hnotes⟩ :=
    Grammar.run_remembered_cases hs₁.toSound hnode rfl hfound hitself
  · rcases hcase with ⟨_, rfl, rfl⟩ | ⟨hsuccess, _⟩
    · have hv : v.Charted (sums right) outcomes (pending.add s.cursor 3) := by
        refine hs₁.of_entries hwithin.sound hwithin.input_eq (fun q r hq => ?_) (.inl hnotes)
        rw [hmemo, hs'.cursor_eq]
        exact MemoTable.get?_insert_of_ne fun heq => hq (.inr heq)
      have hle : s.cursor ≤ v.length := by
        rw [hwithin.length_eq, hs'.length_eq]
        exact hs.cursor_le
      obtain ⟨ht, hkept, number, reach, hnumber, htnotes, hsuccess, hstop⟩ := hfallback rfl (hv.seek hle)
      refine ⟨ht, ⟨(Match.placeholder s.cursor).withStatus .detected, hkept.get? ?_ ?_, rfl⟩, number, reach, hnumber,
        ?_, hsuccess, fun hok => ?_⟩
      · rw [memo_seek, hmemo, ← hs'.cursor_eq]
        exact MemoTable.get?_insert_self hs₁.toSound.cursor_lt
      · exact nofun
      · rw [htnotes, failureNotes_seek, hnotes, hs'.failureNotes_eq]
      · exact ⟨(hstop hok).1, hsuccess.trans hok, hhidden, hlabel, (hstop hok).2⟩
    · nomatch hsuccess
  · exact absurd rfl hstatus

def OperandFinds (right : NodeId) (outcomes : Outcomes) (pending : Pending) (position depth : Nat) : Prop :=
  ∀ d < depth, ∀ {u : Session} {r : Match} {v : Session}, u.Charted (sums right) outcomes pending →
    position < u.cursor → (sums right).run d right u = .done (r, v) → u.Finds (sums right) outcomes pending right r v

/-- Behind a sum there is a sign with an operand, or the terms have come to their end. -/
theorem items_behind_sum {start d : Nat} {acc : Match} (hg : (sums right).WellFormed)
    (hright : IsOperand (outcomes right)) (hoperand : OperandFinds right outcomes pending position depth)
    (hd : d < depth) (hposition : position ≤ s.cursor) (hs : s.Charted (sums right) outcomes pending)
    (hstart : start ≤ s.length) (hacc : acc.success = true)
    (h : matchItems ((sums right).run d) start [4, right] acc s = .done (m, t)) :
    t.Charted (sums right) outcomes pending ∧ ∃ reach, t.failureNotes = s.failureNotes.add reach ∧
      (m.success = false ∧ TermsAt s.input s.cursor [] s.cursor reach ∨
        ∃ r, s.input[s.cursor]? = some '+' ∧ outcomes right s.input (s.cursor + 1) r reach ∧ r.success = true ∧
          s.cursor < r.stop ∧ m.success = true ∧ m.stop = r.stop ∧ m.visibleChildren = acc.visibleChildren ++ [r]) := by
  obtain ⟨sign, u, hsign, hcase⟩ := matchItems_cons_cases h
  have hu := (Grammar.answered_of_run hg hs.toSound hsign).2
  obtain ⟨⟨hplus, hsuccess, hstop, hnotes⟩ | ⟨hnot, hfail, hnotes⟩, hmemo, hunveiled⟩ := run_sign hsign
  · have hcharted := hs.of_entries hu.within.sound hu.within.input_eq (fun _ _ _ => by rw [hmemo]) (.inl hnotes)
    rcases hcase with ⟨hfail, _⟩ | ⟨_, h⟩
    · simp [hsuccess] at hfail
    · obtain ⟨r, v, hr, hcase⟩ := matchItems_cons_cases h
      have hcursor : u.cursor = s.cursor + 1 := hu.cursor_eq.trans hstop
      have hv := (Grammar.answered_of_run hg hu.within.sound hr).2
      have hbehind : position < u.cursor := by
        rw [hcursor]
        exact Nat.lt_succ_of_le hposition
      obtain ⟨hvcharted, reach, hfound, hvnotes⟩ := hoperand d hd hcharted hbehind hr
      rw [hu.within.input_eq, hcursor] at hfound
      rw [hnotes] at hvnotes
      rcases hcase with ⟨hfail, rfl, rfl⟩ | ⟨hrsuccess, h⟩
      · obtain ⟨hnone, rfl⟩ := hright.none hfound hfail
        have hle : start ≤ v.length := by
          rw [hv.within.length_eq, hu.within.length_eq]
          exact hstart
        exact ⟨hvcharted.seek hle, _, hvnotes, .inl ⟨rfl, .sign hplus hnone⟩⟩
      · obtain ⟨rfl, rfl⟩ := Prod.mk.inj (Run.done.inj h)
        have hlt : s.cursor < r.stop := by
          have hle := hv.placed.start_le_stop
          omega
        refine ⟨hvcharted, reach, hvnotes, .inr ⟨r, hplus, hfound, hrsuccess, hlt, hacc, rfl, ?_⟩⟩
        rw [Match.visibleChildren_push, Match.visibleChildren_push, hunveiled, List.append_nil,
          Match.unveiled_of_visible (hright.hidden_eq hfound hrsuccess)]
  · rcases hcase with ⟨_, rfl, rfl⟩ | ⟨hsuccess, _⟩
    · have hcharted := hs.of_entries hu.within.sound hu.within.input_eq (fun _ _ _ => by rw [hmemo]) (.inr ⟨_, hnotes⟩)
      have hle : start ≤ u.length := hstart.trans_eq hu.within.length_eq.symm
      exact ⟨hcharted.seek hle, _, hnotes, .inl ⟨rfl, .none hnot⟩⟩
    · simp [hfail] at hsuccess

/-- The rule of sums is being grown at `position`, with `committed` as the longest match so far. -/
structure Growing (right : NodeId) (outcomes : Outcomes) (pending : Pending) (position : Nat) (committed : Match)
    (s : Session) : Prop where
  charted : s.Charted (sums right) outcomes (pending.add position 3)
  entry_eq : s.memo.get? position 3 = some committed
  status_eq : committed.status = .detected
  expression : ∃ below, committed.IsExpression below
  first : ∃ digits next, DigitsAt s.input position digits next ∧ next ≤ committed.stop

/-- The sum `m` is `committed` with a sign and the operand `r` behind it. -/
structure Prolongs (right : NodeId) (outcomes : Outcomes) (input : Array Char) (committed r m : Match) (reach : Nat) :
    Prop where
  sign : input[committed.stop]? = some '+'
  operand : outcomes right input (committed.stop + 1) r reach
  success : r.success = true
  lt : committed.stop < r.stop
  stop_eq : m.stop = r.stop
  expression : m.IsExpression [committed, r]

/-- A further trial finds the longest match so far, and goes on behind it. -/
theorem Growing.attempt (hg : (sums right).WellFormed) (hout : outcomes 2 = NumberOutcome)
    (hright : IsOperand (outcomes right)) (hp : ∀ q, ¬ pending q 2)
    (hoperand : OperandFinds right outcomes (pending.add position 3) position depth)
    (hs : Growing right outcomes pending position committed s) (hcursor : s.cursor = position)
    (h : sumNode.eval ((sums right).run depth) s = .done (m, t)) :
    t.Charted (sums right) outcomes (pending.add position 3) ∧ t.memo.get? position 3 = some committed ∧
      ∃ reach, t.failureNotes = s.failureNotes.add reach ∧
        ((∃ r, Prolongs right outcomes s.input committed r m reach) ∨
          TermsAt s.input committed.stop [] committed.stop reach ∧ (m.success = true → m.stop ≤ committed.stop)) := by
  subst hcursor
  have hnode : (sums right).node? 3 = some sumNode := rfl
  have hp' : ∀ q, ¬ (pending.add s.cursor 3) q 2 := fun q hq => hq.elim (hp q) fun heq => nomatch heq.2
  have hpossible : committed.status ≠ .possible := by simp [hs.status_eq]
  obtain ⟨below, hcommitted⟩ := hs.expression
  have hkept : s.memo.Kept t.memo := (Grammar.answered_of_eval hg hnode hs.charted.toSound h).within.kept
  refine and_left_comm.1 ⟨hkept.get? hs.entry_eq hpossible, ?_⟩
  obtain ⟨hhidden, hlabel, d, s', n, u, hd, hs', hitems, hgives, hfallback⟩ :=
    eval_sum_items hg hout hs.charted.toSound hp' h
  have hs₁ := hs.charted.eventsApart hs'
  obtain ⟨itself, v, hitself, hcase⟩ := matchItems_cons_cases hitems
  have hv := (Grammar.answered_of_run hg hs₁.toSound hitself).2
  have hentry : s'.memo.get? s'.cursor 3 = some committed := by
    rw [hs'.memo_eq, hs'.cursor_eq]
    exact hs.entry_eq
  obtain ⟨⟨hstatus, _⟩ | ⟨_, rfl, hvmemo⟩, hvnotes⟩ :=
    Grammar.run_remembered_cases hs₁.toSound hnode rfl hentry hitself
  · exact absurd hstatus hpossible
  · rcases hcase with ⟨hfail, _⟩ | ⟨_, hitems⟩
    · simp [hcommitted.success] at hfail
    have hvcharted := hs₁.of_entries hv.within.sound hv.within.input_eq (fun _ _ _ => by rw [hvmemo]) (.inl hvnotes)
    have hinput : v.input = s.input := hv.within.input_eq.trans hs'.input_eq
    have hposition : s.cursor ≤ v.cursor := hs'.cursor_eq ▸ hv.within.cursor_le
    have hle : s.cursor ≤ v.length := Nat.le_trans hposition hv.within.sound.cursor_le
    obtain ⟨hu, reach, hunotes, hbehind⟩ := items_behind_sum hg hright hoperand hd hposition hvcharted hle rfl hitems
    rw [hvnotes, hs'.failureNotes_eq] at hunotes
    rw [hinput, hv.cursor_eq] at hbehind
    rcases hbehind with ⟨hfail, hterms⟩ | ⟨r, hsign, hfound, hrsuccess, hlt, hsuccess, hstop, hbelow⟩
    · obtain ⟨ht, _, number, reach', hnumber, htnotes, hmsuccess, hmstop⟩ := hfallback hfail hu
      obtain ⟨digits, next, hdigits, hnext⟩ := hs.first
      obtain ⟨rfl, hnumberstop⟩ := hnumber.ends hdigits
      refine ⟨ht, reach, ?_, .inr ⟨hterms, fun hok => ?_⟩⟩
      · rw [htnotes, hunotes, FailureNotes.add_of_le (Nat.le_trans hnext hterms.le.2)]
      · have hok' := hmsuccess.symm.trans hok
        rw [(hmstop hok').1, hnumberstop hok']
        exact hnext
    · obtain ⟨hmsuccess, hmstop, hmbelow, ht⟩ := hgives hsuccess
      refine ⟨hu.eventsApart ht, reach, ?_, .inl ⟨r, hsign, hfound, hrsuccess, hlt, hmstop.trans hstop, ?_⟩⟩
      · rw [ht.failureNotes_eq, hunotes]
      · refine ⟨hmsuccess, hhidden, hlabel, ?_⟩
        rw [hmbelow, hbelow, Match.visibleChildren_push, Match.unveiled_of_visible hcommitted.hidden_eq]
        rfl

end Reference

end Packrat
