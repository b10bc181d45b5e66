import Packrat.Proofs.Accounts
import Packrat.Proofs.Frozen

/-!
# Every rule is accounted for

While a rule has an entry of the memo table no call does any work for it at that position: it can only be looked up,
which finds a match or, at most once, marks the rule. The first call does the work, and its account is closed when it
ends: one trial for the call and one for each attempt to grow, and one write for the call and one for each attempt
that is accepted.
-/

namespace Packrat

open Session

/-- Every look-up but the first has found an entry, which has been marked at most once, and is no placeholder any more
once it has been marked. -/
structure LookUps.Fits (l : LookUps) (entry : Match) : Prop where
  checks_eq : l.checks = 1 + l.reused + l.marked
  marked_le : l.marked ≤ 1
  status_ne : l.marked = 1 → entry.status ≠ .possible

/-- There has been one trial for the first call and one for each attempt to grow, and one write for the first call
and one for each attempt that was accepted. -/
structure Work.Balanced (w : Work) : Prop where
  attempts_eq : w.attempts = 1 + w.growAttempts
  saves_eq : w.saves = 1 + w.growAccepts

structure Work.Growing (w : Work) : Prop extends w.Balanced where
  begun_eq : w.begun = 1
  ended_eq : w.ended = 0

/-- The work of a call that is over: it has grown once or not at all. -/
structure Work.Closed (w : Work) : Prop extends w.Balanced where
  begun_le : w.begun ≤ 1
  ended_le : w.ended ≤ 1

/-- What the account of a rule at a position says if it has an entry there: its body has been tried once for the
first call and once for each attempt to grow, and each look-up but the first has found something. -/
structure Account.IsSettled (a : Account) : Prop where
  attempts_eq : a.attempts = 1 + a.growAttempts
  checks_eq : a.checks = 1 + a.reused + a.marked
  saves_eq : a.saves = 1 + a.growAccepts
  marked_le : a.marked ≤ 1
  begun_le : a.begun ≤ 1
  ended_le : a.ended ≤ 1

namespace Books

/-- There is an entry, the work that has been done for it is `w`, and the look-ups fit it. -/
def Open (w : Work) (b : Books) : Prop :=
  ∃ entry l, b.found? = some entry ∧ b.account? = some ⟨w, l⟩ ∧ l.Fits entry

/-- There is no entry, and nothing has been done; or there is one, and the work for it is over. -/
def Accounted (b : Books) : Prop :=
  (b.found? = none ∧ b.account? = some {}) ∨ ∃ w : Work, w.Closed ∧ b.Open w

end Books

namespace Grammar

variable {g : Grammar} {pending : Pending} {rule id : NodeId} {node : Node} {position depth : Nat} {s t : Session}
  {m : Match} {w : Work}

/-- A step of the rule itself, at its position, is added to the work. -/
theorem open_emit {kind : EventKind} (hkind : ∀ l : LookUps, l.post kind = l) (stop : Nat)
    (h : (s.books rule node.label position).Open w) :
    ((s.emit kind node.label position stop).books rule node.label position).Open (w.post kind) := by
  obtain ⟨entry, l, hentry, haccount, hfits⟩ := h
  refine ⟨entry, l, ?_, ?_, hfits⟩
  · rwa [books_emit]
  · rw [books_emit, haccount]
    simp [Account.post, hkind]

/-- What is written in the place of an entry must not be a placeholder. -/
theorem open_remember (hposition : position < s.memo.positions) (hstatus : m.status ≠ .possible)
    (h : (s.books rule node.label position).Open w) :
    ((s.remember position rule m).books rule node.label position).Open w := by
  obtain ⟨entry, l, _, haccount, hfits⟩ := h
  rw [books_remember_self hposition]
  exact ⟨m, l, rfl, haccount, hfits.checks_eq, hfits.marked_le, fun _ => hstatus⟩

theorem open_save (hposition : position < s.memo.positions) (hstatus : m.status ≠ .possible)
    (hstart : m.start = position) (h : (s.books rule node.label position).Open w) :
    ((s.save position rule node.label m).books rule node.label position).Open (w.post (.memoSave m.status)) := by
  rw [save, hstart]
  exact open_emit (fun _ => rfl) _ (open_remember hposition hstatus h)

/-- A look-up that finds an entry takes it, or marks it for the first time. -/
theorem open_answerFromMemo {null : Prop} {memo : Match} (hposition : position < s.memo.positions)
    (hplaced : memo.Placed s.input s.cursor null) (hcursor : s.cursor = position) {l : LookUps} (hl : l.Fits memo)
    (hentry : (s.books rule node.label position).found? = some memo)
    (haccount : (s.books rule node.label position).account? = some ⟨w, l.post .memoCheck⟩)
    (h : node.answerFromMemo rule memo s = .done (m, t)) : (t.books rule node.label position).Open w := by
  subst hcursor
  have hchecks := hl.checks_eq
  rw [Node.answerFromMemo_eq hplaced] at h
  split at h
  · rename_i hpossible
    have hfirst : l.marked = 0 := by
      have hle := hl.marked_le
      have hnot : l.marked ≠ 1 := fun hone => hl.status_ne hone hpossible
      omega
    obtain ⟨_, rfl⟩ := Prod.mk.inj (Run.done.inj h)
    refine ⟨memo.withStatus .detected, (l.post .memoCheck).post .identifyLeftRecursion, ?_, ?_, ?_⟩
    · rw [books_emit, books_remember_self (by simpa using hposition)]
    · rw [books_emit, books_remember_self (by simpa using hposition), books_seek, haccount]
      simp [Account.post, Work.post]
    · refine ⟨?_, ?_, fun _ => by simp⟩
      · simp only [LookUps.post]
        omega
      · simp [LookUps.post, hfirst]
  · rename_i hstatus
    obtain ⟨_, rfl⟩ := Prod.mk.inj (Run.done.inj h)
    refine ⟨memo, (l.post .memoCheck).post (.assumeResult memo.status), ?_, ?_, ?_⟩
    · rwa [books_emit, books_seek]
    · rw [books_emit, books_seek, haccount, hplaced.start_eq]
      simp [Account.post, Work.post]
    · refine ⟨?_, hl.marked_le, fun _ => hstatus⟩
      simp only [LookUps.post]
      omega

variable (hg : g.WellFormed) (hrule : g.Singular rule node)

include hg hrule

/-- Where the rule has an entry, no call does any work for it. -/
theorem run_keeps_open (depth : Nat) (w : Work) : g.CallsKeep rule node.label position (·.Open w) depth := by
  induction depth with
  | zero => exact fun _ _ _ _ _ _ _ h => nomatch h
  | succ depth ih =>
    intro pending id s m t hs hinit h
    by_cases hself : s.cursor = position ∧ id = rule
    · obtain ⟨rfl, rfl⟩ := hself
      obtain ⟨entry, l, hentry, haccount, hfits⟩ := hinit
      have hplaced := hs.placed hentry
      rw [run, answer_of_remembered hrule.node?_eq hrule.hidden_eq hentry] at h
      refine open_answerFromMemo ?_ (by simpa using hplaced) (cursor_emit ..) hfits ?_ ?_ h
      · rw [memo_emit]
        exact hs.cursor_lt
      · rwa [books_emit]
      · rw [books_emit, haccount]
        simp [Account.post, Work.post]
    · exact run_elsewhere hg hrule ih hs hself hinit h

theorem eval_open (hs : s.Sound g pending) (hcursor : s.cursor = position)
    (hinit : (s.books rule node.label position).Open w) (h : node.eval (g.run depth) s = .done (m, t)) :
    (t.books rule node.label position).Open (w.post .attempt) := by
  refine eval_keeps_books (K := (·.Open (w.post .attempt))) hg (run_keeps_open hg hrule depth _) hrule.node?_eq hs ?_ h
  rw [hcursor]
  exact open_emit (fun _ => rfl) _ hinit

/-- A growth does one trial for each of its attempts, and one write for each that is accepted. -/
theorem growRounds_open {rounds iteration k : Nat} {committed : Match} (hs : s.Sound g (pending.add position rule))
    (hw : w.Growing) (hinit : (s.books rule node.label position).Open w)
    (h : node.growRounds (g.run depth) rule position rounds iteration committed s = .done (k, m, t)) :
    ∃ w' : Work, w'.Growing ∧ (t.books rule node.label position).Open w' := by
  induction rounds generalizing iteration committed s w with
  | zero => nomatch h
  | succ rounds ih =>
    obtain ⟨hle, attempt, v, hattempt, hcase⟩ := Node.growRounds_eq_done_iff.1 h
    have hsound : ((s.emit (.growAttempt iteration) node.label position committed.stop).seek position).Sound g
        (pending.add position rule) := (hs.seek hle).alike ((alike_emit ..).seek position)
    have hopen : ((s.emit (.growAttempt iteration) node.label position committed.stop).books rule node.label
        position).Open (w.post (.growAttempt iteration)) := open_emit (fun _ => rfl) _ hinit
    have hv := eval_open hg hrule hsound rfl hopen hattempt
    have htried : ((w.post (.growAttempt iteration)).post .attempt).Growing :=
      ⟨⟨by simp [Work.post, hw.attempts_eq, Nat.add_assoc], hw.saves_eq⟩, hw.begun_eq, hw.ended_eq⟩
    rcases hcase with ⟨_, _, _, rfl⟩ | ⟨_, _, _, _, rfl⟩ | ⟨_, _, h⟩
    · exact ⟨_, htried, open_emit (fun _ => rfl) _ hv⟩
    · exact ⟨_, htried, open_emit (fun _ => rfl) _ hv⟩
    · have hanswered := answered_of_eval hg hrule.node?_eq hsound hattempt
      have hplaced : (attempt.withStatus .detected).Placed v.input position (g.Nullable rule) := by
        rw [hanswered.within.input_eq]
        exact hanswered.placed.withStatus _
      have hpos : position < v.memo.positions := hanswered.within.cursor_lt
      refine ih ?_ ?_ ?_ h (w := ((((w.post (.growAttempt iteration)).post .attempt).post (.growAccept iteration)).post
        (.memoSave .detected)))
      · exact (hanswered.within.sound.remember hrule.isVisible hplaced fun hp => absurd (.inr ⟨rfl, rfl⟩) hp).alike
          ((alike_save ..).trans ((alike_emit ..).remember ..))
      · exact ⟨⟨htried.attempts_eq, by simp [Work.post, hw.saves_eq, Nat.add_assoc]⟩, hw.begun_eq, hw.ended_eq⟩
      · exact open_save (by simpa using hpos) (by simp) hplaced.start_eq (open_emit (fun _ => rfl) _ hv)

theorem answerFirst_accounted (hs : s.Sound g pending) (hcursor : s.cursor = position)
    (haccount : (s.books rule node.label position).account? = some ⟨{}, { checks := 1 }⟩)
    (h : node.answerFirst (g.run depth) rule s = .done (m, t)) : (t.books rule node.label position).Accounted := by
  subst hcursor
  obtain ⟨first, u, hfirst, hcase⟩ := Node.answerFirst_eq_done_iff.1 h
  have hsound := hs.begin hrule.isVisible
  have hbegin : ((s.remember s.cursor rule (.placeholder s.cursor)).books rule node.label s.cursor).Open {} := by
    rw [books_remember_self hs.cursor_lt]
    exact ⟨_, _, rfl, haccount, rfl, Nat.zero_le _, fun hone => by simp at hone⟩
  have hu := eval_open hg hrule hsound rfl hbegin hfirst
  have hanswered := answered_of_eval hg hrule.node?_eq hsound hfirst
  have hplaced : ∀ status, (first.withStatus status).Placed u.input s.cursor (g.Nullable rule) := by
    rw [hanswered.within.input_eq]
    exact hanswered.placed.withStatus
  have hpos : s.cursor < u.memo.positions := by
    have hlt := hsound.cursor_lt
    rwa [hsound.positions_eq, ← hanswered.within.length_eq, ← hanswered.within.sound.positions_eq] at hlt
  have hsaved : ∀ status, status ≠ .possible →
      ((u.save s.cursor rule node.label (first.withStatus status)).books rule node.label s.cursor).Open
        { attempts := 1, saves := 1 } := fun status hstatus =>
    open_save hpos hstatus (hplaced status).start_eq hu
  split at hcase
  · obtain ⟨k, v, hgrow, _, rfl⟩ := Node.grow_eq_done_iff.1 hcase
    have hseed : ((u.save s.cursor rule node.label (first.withStatus .detected)).emit .beginGrow node.label first.start
        first.stop).Sound g (pending.add s.cursor rule) :=
      (hanswered.within.sound.remember hrule.isVisible (hplaced .detected)
        fun hp => absurd (.inr ⟨rfl, rfl⟩) hp).alike ((alike_emit ..).trans (alike_save ..))
    have hbegun : ((u.save s.cursor rule node.label (first.withStatus .detected)).emit .beginGrow node.label first.start
        first.stop).books rule node.label s.cursor |>.Open { attempts := 1, saves := 1, begun := 1 } := by
      rw [hanswered.placed.start_eq]
      exact open_emit (fun _ => rfl) _ (hsaved .detected (by simp))
    obtain ⟨w, hw, hv⟩ := growRounds_open hg hrule hseed ⟨⟨rfl, rfl⟩, rfl, rfl⟩ hbegun hgrow
    refine .inr ⟨w.post (.growTerminate k), ⟨⟨hw.attempts_eq, hw.saves_eq⟩, ?_, ?_⟩, ?_⟩
    · exact Nat.le_of_eq hw.begun_eq
    · simp [Work.post, hw.ended_eq]
    · rw [books_seek]
      exact open_emit (fun _ => rfl) _ hv
  · obtain ⟨rfl, rfl⟩ := hcase
    exact .inr ⟨_, ⟨⟨rfl, rfl⟩, Nat.zero_le _, Nat.zero_le _⟩, hsaved .impossible (by simp)⟩

theorem run_keeps_accounted (depth : Nat) : g.CallsKeep rule node.label position (·.Accounted) depth := by
  induction depth with
  | zero => exact fun _ _ _ _ _ _ _ h => nomatch h
  | succ depth ih =>
    intro pending id s m t hs hinit h
    by_cases hself : s.cursor = position ∧ id = rule
    · obtain ⟨rfl, rfl⟩ := hself
      rcases hinit with ⟨hnone, haccount⟩ | ⟨w, hw, hopen⟩
      · rw [run, answer_of_absent hrule.node?_eq hrule.hidden_eq hnone] at h
        refine answerFirst_accounted hg hrule (hs.alike (alike_emit ..)) (cursor_emit ..) ?_ h
        rw [books_emit, haccount]
        simp [Account.post, Work.post, LookUps.post]
      · exact .inr ⟨w, hw, run_keeps_open hg hrule (depth + 1) w pending id s m t hs hopen h⟩
    · exact run_elsewhere hg hrule ih hs hself hinit h

omit hg hrule

theorem accounted_start (rule : NodeId) (label : String) (position : Nat) {input : String} {options : Options}
    (hrecording : options.recordHistory = true) :
    ((Session.start input options).books rule label position).Accounted := by
  refine .inl ⟨by simp [books, Session.start], ?_⟩
  simp [books, Session.start, history?, Diagnostics.forOptions, hrecording, History.account, History.tally]

theorem Onward.accounted (hg : g.Built) (hrule : g.Singular rule node) (hs : g.Reached s)
    (hinit : (s.books rule node.label position).Accounted) (h : g.Onward s t) :
    (t.books rule node.label position).Accounted := by
  induction h with
  | refl => exact hinit
  | @matched t u m id ht h ih =>
    obtain ⟨depth, h⟩ := h
    exact run_keeps_accounted hg.wellFormed hrule depth .none id t m u ((ht.reached hs).sound hg.wellFormed) ih h
  | refused ht h ih =>
    obtain rfl := (ht.reached hs).eq_of_refused hg.wellFormed h
    exact ih
  | moved ht h ih =>
    obtain ⟨_, rfl⟩ := eq_seek_of_moveTo h
    exact ih

/-- Every rule body is tried once for each position, and once for each attempt to grow. In a new session that records
its events nodes are matched, one or more, and the cursor may be moved in between. Then each visible rule whose name
is not that of a kind of patterns is accounted for, at each position: what the events with its label and that start
add up to is settled if there is an entry in the memo table, and is nothing if there is none. -/
theorem Built.rules_are_accounted_for (hg : g.Built) {input : String} {options : Options}
    (hrecording : options.recordHistory = true) (hs : g.Onward (Session.start input options) s)
    (h : g.Matches id s m t) (hvisible : g.isVisible rule = true) (hname : ∀ kind : Kind, g.label rule ≠ kind.name)
    (position : Nat) :
    ∃ history, t.history? = some history ∧
      ((t.memo.get? position rule).isSome = true → (history.account (g.label rule) position).IsSettled) ∧
      (t.memo.get? position rule = none → history.account (g.label rule) position = {}) := by
  obtain ⟨node, hrule, hlabel⟩ := hg.singular hvisible hname
  have haccounted := Onward.accounted hg hrule (.start input options)
    (accounted_start rule node.label position hrecording) (.matched hs h)
  rw [hlabel]
  rcases haccounted with ⟨hnone, haccount⟩ | ⟨w, hw, entry, l, hentry, haccount, hfits⟩
  · obtain ⟨history, hhistory, hzero⟩ := Option.map_eq_some_iff.1 haccount
    have hnone : t.memo.get? position rule = none := hnone
    exact ⟨history, hhistory, fun hsome => by simp [hnone] at hsome, fun _ => hzero⟩
  · obtain ⟨history, hhistory, htotal⟩ := Option.map_eq_some_iff.1 haccount
    have hentry : t.memo.get? position rule = some entry := hentry
    refine ⟨history, hhistory, fun _ => ?_, fun hnone => by simp [hentry] at hnone⟩
    rw [htotal]
    exact ⟨hw.attempts_eq, hfits.checks_eq, hw.saves_eq, hfits.marked_le, hw.begun_le, hw.ended_le⟩

/-- In the sum `1+2` there are two attempts to grow, the second of which is in vain, and the body of the rule has been
tried three times. -/
theorem sum_rules_are_accounted_for : ∃ m t history,
    Reference.expression.build.grammar.Matches 3 (Session.start "1+2" ⟨true, 10, true⟩) m t ∧
      t.history? = some history ∧ (history.account "Expression" 0).growAttempts = 2 ∧
      (history.account "Expression" 0).IsSettled := by
  obtain ⟨m, t, h, hentry, hgrown⟩ := exists_matches (by decide +kernel :
    (Reference.expression.build.grammar.matchAt 3 (Session.start "1+2" ⟨true, 10, true⟩)).Yields False False
      fun a => (a.2.memo.get? 0 3).isSome = true ∧
        a.2.history?.map (fun history => (History.account history "Expression" 0).growAttempts) = some 2)
  obtain ⟨history, hhistory, hsettled, _⟩ := Built.rules_are_accounted_for Reference.expression.built rfl .refl h
    (by decide : Reference.expression.build.grammar.isVisible 3 = true)
    (fun kind => by cases kind <;> decide) 0
  rw [hhistory] at hgrown
  exact ⟨m, t, history, h, hhistory, Option.some.inj hgrown, hsettled hentry⟩

end Grammar

end Packrat
