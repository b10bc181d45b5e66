import Packrat.Proofs.PatternAnswers

/-!
# What a call answers

The step from the calls inside a node to the call of the node itself. A rule that is called for the
first time is pending until its answer is put into the memo table; the answer is then final, whether
it was grown or not, and so the table is sound for the calls that were pending before.
-/

namespace Packrat

open Session Pattern

namespace MemoTable

variable {t u : MemoTable} {position : Nat} {id : NodeId} {m : Match}

theorem get?_insert_self (h : position < t.positions) :
    (t.insert position id m).get? position id = some m := by
  simp [MemoTable.get?_insert, h]

theorem get?_insert_of_ne {q : Nat} {r : NodeId} (h : ¬ (q = position ∧ r = id)) :
    (t.insert position id m).get? q r = t.get? q r := by
  rw [MemoTable.get?_insert]
  exact if_neg fun hc => h ⟨hc.1, hc.2.2⟩

theorem get?_erase_self (t : MemoTable) (position : Nat) (id : NodeId) :
    (t.erase position id).get? position id = none := by
  rw [MemoTable.get?_erase]
  exact if_pos ⟨rfl, rfl⟩

theorem Kept.insert (h : t.Kept u) (hnone : t.get? position id = none) :
    t.Kept (u.insert position id m) := by
  intro q r e he
  have hne : ¬ (q = position ∧ r = id) := by
    rintro ⟨rfl, rfl⟩
    rw [hnone] at he
    cases he
  rw [get?_insert_of_ne hne]
  exact h q r e he

theorem Kept.mark (h : t.get? position id = some m) (hstatus : m.status = .possible)
    (hpos : position < t.positions) : t.Kept (t.insert position id (m.withStatus .detected)) := by
  intro q r e he
  by_cases hqr : q = position ∧ r = id
  · obtain ⟨rfl, rfl⟩ := hqr
    obtain rfl : m = e := by simpa [h] using he
    exact .inr ⟨hstatus, get?_insert_self hpos⟩
  · rw [get?_insert_of_ne hqr]
    exact .inl he

end MemoTable

namespace Session

variable {g : Grammar} {pending : Pending} {s t u : Session} {id : NodeId} {m : Match}

theorem Sound.cursor_lt (hs : s.Sound g pending) : s.cursor < s.memo.positions := by
  rw [hs.positions_eq]
  exact Nat.lt_succ_of_le hs.cursor_le

theorem Within.cursor_lt (h : s.Within g pending t) : s.cursor < t.memo.positions := by
  rw [h.sound.positions_eq]
  exact Nat.lt_succ_of_le (Nat.le_trans h.cursor_le h.sound.cursor_le)

/-- A match that lies where it belongs may be remembered for a pending call; for any other call it has
to be final. -/
theorem Sound.remember (hs : s.Sound g pending) {position : Nat} (hvisible : g.isVisible id = true)
    (hm : m.Placed s.input position (g.Nullable id)) (hsettled : ¬ pending position id → g.Settled id m) :
    (s.remember position id m).Sound g pending := by
  have hentry : ∀ {q r e}, (s.remember position id m).memo.get? q r = some e →
      (q = position ∧ r = id ∧ e = m) ∨ s.memo.get? q r = some e := by
    intro q r e he
    rw [memo_remember, MemoTable.get?_insert] at he
    split at he
    · rename_i hqr
      exact .inl ⟨hqr.1, hqr.2.2, (Option.some.inj he).symm⟩
    · exact .inr he
  refine ⟨hs.cursor_le, (MemoTable.positions_insert ..).trans hs.positions_eq, ?_, ?_, ?_⟩
  · intro q r e he
    rcases hentry he with ⟨rfl, rfl, rfl⟩ | he
    · exact hm
    · exact hs.placed he
  · intro q r e he
    rcases hentry he with ⟨rfl, rfl, rfl⟩ | he
    · exact hvisible
    · exact hs.visible he
  · intro q r e he hpending
    rcases hentry he with ⟨rfl, rfl, rfl⟩ | he
    · exact hsettled hpending
    · exact hs.settled he hpending

theorem Sound.begin (hs : s.Sound g pending) (hvisible : g.isVisible id = true) :
    (s.remember s.cursor id (.placeholder s.cursor)).Sound g (pending.add s.cursor id) := by
  have hs' : s.Sound g (pending.add s.cursor id) :=
    { hs with settled := fun he hp => hs.settled he fun hc => hp (.inl hc) }
  exact hs'.remember hvisible (.placeholder hs.cursor_le) fun hp => absurd (.inr ⟨rfl, rfl⟩) hp

/-- Once the entry of a pending call is final the call need not be pending. -/
theorem Sound.finish {position : Nat} (ht : t.Sound g (pending.add position id))
    (hm : ∀ e, t.memo.get? position id = some e → g.Settled id e) : t.Sound g pending :=
  { ht with
    settled := by
      intro q r e he hpending
      by_cases hqr : q = position ∧ r = id
      · obtain ⟨rfl, rfl⟩ := hqr
        exact hm e he
      · exact ht.settled he fun hc => hc.elim hpending hqr }

/-- The session `u` stands where the rule `id`, called for the first time in `s`, has its body tried
once more. -/
structure Restart (g : Grammar) (pending : Pending) (id : NodeId) (s u : Session) : Prop where
  sound : u.Sound g (pending.add s.cursor id)
  input_eq : u.input = s.input
  cursor_eq : u.cursor = s.cursor
  kept : s.memo.Kept u.memo
  isSome : (u.memo.get? s.cursor id).isSome

end Session

namespace Node

variable {g : Grammar} {pending : Pending} {bound : Prop} {call : Evaluator} {id : NodeId} {node : Node}
  {s t u : Session} {memo m : Match}

theorem answerFromMemo_eq {null : Prop} (hplaced : memo.Placed s.input s.cursor null) :
    node.answerFromMemo id memo s = .done (
      if memo.status = .possible then
        (memo.withStatus .detected,
          ((s.seek memo.stop).remember s.cursor id (memo.withStatus .detected)).emit
            .identifyLeftRecursion node.label s.cursor s.cursor)
      else (memo, (s.seek memo.stop).emit (.assumeResult memo.status) node.label memo.start memo.stop)) := by
  unfold answerFromMemo
  cases hsuccess : memo.success with
  | true =>
    rw [if_pos rfl, moveToR_of_le hplaced.stop_le]
    split <;> rfl
  | false =>
    rw [if_neg Bool.false_ne_true, (hplaced.failure hsuccess).1, seek_cursor]
    split <;> rfl

theorem answerFromMemo_answered (hs : s.Sound g pending) (hmemo : s.remembered? id = some memo) :
    (node.answerFromMemo id memo s).Yields False bound fun a =>
      Answered g pending (g.Nullable id) s a.1 a.2 := by
  have hplaced := hs.placed hmemo
  have hseek := (Within.refl hs).seek hplaced.start_le_stop hplaced.stop_le
  rw [answerFromMemo_eq hplaced]
  split
  · rename_i hpossible
    have hpending : pending s.cursor id := by
      by_contra hp
      exact (hs.settled hmemo hp).status_ne hpossible
    have hmarked : ((s.seek memo.stop).remember s.cursor id (memo.withStatus .detected)).Sound g pending :=
      hseek.sound.remember (hs.visible hmemo) (hplaced.withStatus _) fun hp => absurd hpending hp
    refine ⟨?_, hplaced.withStatus _, ?_, fun _ => .inr ⟨_, _, hpending⟩⟩
    · refine Within.alike ⟨hmarked, rfl, hplaced.start_le_stop, ?_⟩ (alike_emit ..)
      exact .mark hmemo hpossible hs.cursor_lt
    · rw [cursor_emit]
      rfl
  · refine ⟨hseek.alike (alike_emit ..), hplaced, by simp, fun hf => ?_⟩
    by_cases hp : pending s.cursor id
    · exact .inr ⟨_, _, hp⟩
    · exact .inl ((hs.settled hmemo hp).failure_status hf)

/-- Growing from a committed match never runs out of rounds, and what it commits in the end is final. -/
theorem growRounds_answered {rounds iteration : Nat} {committed : Match}
    (hnode : g.node? id = some node) (hvisible : g.isVisible id = true) (hs : s.Sound g pending)
    (hnone : s.memo.get? s.cursor id = none)
    (hcall : ∀ u, s.Restart g pending id u →
      AnswersInside g (pending.add s.cursor id) bound call id u node.pattern.components)
    (hu : u.Sound g (pending.add s.cursor id)) (hinput : u.input = s.input) (hkept : s.memo.Kept u.memo)
    (hentry : u.memo.get? s.cursor id = some committed)
    (hplaced : committed.Placed s.input s.cursor (g.Nullable id)) (hsuccess : committed.success = true)
    (hsettled : g.Settled id committed) (hrounds : s.length - committed.stop < rounds) :
    (growRounds call node id s.cursor rounds iteration committed u).Yields False bound fun a =>
      a.2.2.Sound g pending ∧ a.2.2.input = s.input ∧ s.memo.Kept a.2.2.memo ∧
        a.2.1.Placed s.input s.cursor (g.Nullable id) ∧ a.2.1.success = true := by
  induction rounds generalizing iteration committed u with
  | zero => omega
  | succ rounds ih =>
    rw [growRounds]
    have hlen : s.cursor ≤ (u.emit (.growAttempt iteration) node.label s.cursor committed.stop).length := by
      rw [length_eq (input_emit ..), length_eq hinput]
      exact hs.cursor_le
    have hrestart : s.Restart g pending id
        ((u.emit (.growAttempt iteration) node.label s.cursor committed.stop).seek s.cursor) := {
      sound := (hu.alike (alike_emit ..)).seek hlen
      input_eq := by simpa using hinput
      cursor_eq := rfl
      kept := by simpa using hkept
      isSome := by simp [hentry] }
    dsimp only
    rw [moveToR_of_le hlen, Run.done_bind]
    refine (Node.eval_answered hnode hrestart.sound (hcall _ hrestart)).bind ?_
    rintro ⟨attempt, v⟩ ⟨hattempt, horigin⟩
    dsimp only at hattempt horigin ⊢
    have hvinput : v.input = s.input := hattempt.within.input_eq.trans hrestart.input_eq
    have hvkept : s.memo.Kept v.memo := hrestart.kept.trans hattempt.within.kept
    have hventry : v.memo.get? s.cursor id = some committed :=
      hattempt.within.kept.get? (by simpa using hentry) hsettled.status_ne
    have hfinished : v.Sound g pending := hattempt.within.sound.finish fun e he => by
      rw [hventry] at he
      exact Option.some.inj he ▸ hsettled
    have hstopped : ∀ {kind label start stop}, (v.emit kind label start stop).Sound g pending ∧
        (v.emit kind label start stop).input = s.input ∧ s.memo.Kept (v.emit kind label start stop).memo ∧
        committed.Placed s.input s.cursor (g.Nullable id) ∧ committed.success = true := by
      intro kind label start stop
      refine ⟨hfinished.alike (alike_emit ..), ?_, ?_, hplaced, hsuccess⟩
      · rw [input_emit, hvinput]
      · rwa [memo_emit]
    split
    · exact hstopped
    · rename_i hasuccess
      have hasuccess : attempt.success = true := by simpa using hasuccess
      split
      · exact hstopped
      · rename_i hfurther
        have haplaced : attempt.Placed s.input s.cursor (g.Nullable id) := by
          simpa [hrestart.input_eq, hrestart.cursor_eq, hinput] using hattempt.placed
        have hvsound := hattempt.within.sound
        have hpos : s.cursor < v.memo.positions := by
          rw [hvsound.positions_eq, length_eq hvinput]
          exact Nat.lt_succ_of_le hs.cursor_le
        have hremembered := hvsound.remember hvisible
          (hvinput.symm ▸ haplaced.withStatus .detected) fun hp => absurd (.inr ⟨rfl, rfl⟩) hp
        refine ih (hremembered.alike ((alike_save ..).trans ((alike_emit ..).remember ..)))
          (by simpa using hvinput) ?_ ?_
          (haplaced.withStatus _) hasuccess ⟨?_, ?_, ?_⟩ ?_
        · rw [memo_save, memo_emit]
          exact hvkept.insert hnone
        · rw [memo_save, memo_emit]
          exact MemoTable.get?_insert_self hpos
        · simp
        · intro hf
          rw [show (attempt.withStatus .detected).success = attempt.success from rfl, hasuccess] at hf
          cases hf
        · rw [hnode]
          exact horigin
        · have hstop : attempt.stop ≤ s.length := haplaced.stop_le
          simp only [Match.stop_withStatus] at hfurther ⊢
          omega

/-- The first call of a rule: its body is tried with a placeholder in the table, and again for as long
as the match grows. -/
theorem answerFirst_answered (hnode : g.node? id = some node) (hvisible : g.isVisible id = true)
    (hs : s.Sound g pending) (hnone : s.remembered? id = none)
    (hcall : ∀ u, s.Restart g pending id u →
      AnswersInside g (pending.add s.cursor id) bound call id u node.pattern.components) :
    (node.answerFirst call id s).Yields False bound fun a =>
      Answered g pending (g.Nullable id) s a.1 a.2 := by
  have hrestart : s.Restart g pending id (s.remember s.cursor id (.placeholder s.cursor)) := {
    sound := hs.begin hvisible
    input_eq := rfl
    cursor_eq := rfl
    kept := (MemoTable.Kept.refl _).insert hnone
    isSome := by rw [memo_remember, MemoTable.get?_insert_self hs.cursor_lt]; rfl }
  unfold answerFirst
  dsimp only
  refine (Node.eval_answered hnode hrestart.sound (hcall _ hrestart)).bind ?_
  rintro ⟨m, t⟩ ⟨hm, horigin⟩
  dsimp only at hm horigin ⊢
  have hkept : s.memo.Kept t.memo := hrestart.kept.trans hm.within.kept
  have hinput : t.input = s.input := hm.within.input_eq
  have hplaced : m.Placed s.input s.cursor (g.Nullable id) := hm.placed
  have hpos : s.cursor < t.memo.positions := hm.within.cursor_lt
  -- whatever is saved is sound, as long as the call is pending
  have hsave : ∀ status, (t.save s.cursor id node.label (m.withStatus status)).Sound g
      (pending.add s.cursor id) := fun status =>
    (hm.within.sound.remember hvisible (hinput.symm ▸ hplaced.withStatus status)
      fun hp => absurd (.inr ⟨rfl, rfl⟩) hp).alike (alike_save ..)
  have hentry : ∀ status, (t.save s.cursor id node.label (m.withStatus status)).memo.get? s.cursor id =
      some (m.withStatus status) := fun status => by
    rw [memo_save]
    exact MemoTable.get?_insert_self hpos
  split
  · rename_i hseed
    have hsuccess : m.success = true := by simpa using (Bool.and_eq_true_iff.1 hseed).2
    have hsettled : g.Settled id (m.withStatus .detected) := by
      refine ⟨by simp, fun hf => ?_, by rw [hnode]; exact horigin⟩
      rw [show (m.withStatus .detected).success = m.success from rfl, hsuccess] at hf
      cases hf
    unfold grow
    have hlength : ((t.save s.cursor id node.label (m.withStatus .detected)).emit .beginGrow node.label
        (m.withStatus .detected).start (m.withStatus .detected).stop).length = s.length :=
      length_eq (by simpa using hinput)
    refine (growRounds_answered hnode hvisible hs hnone hcall
      ((hsave .detected).alike (alike_emit ..)) (by simpa using hinput)
      ?_ ?_ (hplaced.withStatus _) hsuccess hsettled ?_).bind ?_
    · rw [memo_emit, memo_save]
      exact hkept.insert hnone
    · rw [memo_emit, hentry]
    · rw [hlength]
      exact Nat.lt_succ_self _
    · rintro ⟨iterations, committed, u⟩ ⟨hu, huinput, hukept, hcommitted, hcsuccess⟩
      dsimp only at hu huinput hukept hcommitted hcsuccess ⊢
      have hle : committed.stop ≤
          (u.emit (.growTerminate iterations) node.label s.cursor committed.stop).length := by
        rw [length_eq (input_emit ..), length_eq huinput]
        exact hcommitted.stop_le
      rw [moveToR_of_le hle]
      refine ⟨⟨(hu.alike (alike_emit ..)).seek hle, ?_, ?_, ?_⟩,
        hcommitted, rfl, fun hf => ?_⟩
      · simpa using huinput
      · exact hcommitted.start_le_stop
      · simpa using hukept
      · rw [hcsuccess] at hf
        cases hf
  · refine ⟨⟨(hsave .impossible).finish fun e he => ?_, ?_, ?_, ?_⟩, hplaced.withStatus _, ?_,
      fun _ => .inl rfl⟩
    · rw [hentry] at he
      obtain rfl := Option.some.inj he
      exact ⟨by simp, fun _ => rfl, by rw [hnode]; exact horigin⟩
    · simpa using hinput
    · have hle := hm.within.cursor_le
      simpa using hle
    · rw [memo_save]
      exact hkept.insert hnone
    · rw [cursor_save]
      exact hm.cursor_eq

end Node

namespace Grammar

variable {g : Grammar} {pending : Pending} {bound : Prop} {call : Evaluator} {id : NodeId} {s : Session}

/-- A call is answered if the calls inside it are: those of a hidden node, or those of a rule that is
now pending. -/
theorem answer_answered {node : Node} (hnode : g.node? id = some node) (hs : s.Sound g pending)
    (hhidden : g.Hidden id → AnswersInside g pending bound call id s node.pattern.components)
    (hrule : g.isVisible id = true → s.remembered? id = none → ∀ u, s.Restart g pending id u →
      AnswersInside g (pending.add s.cursor id) bound call id u node.pattern.components) :
    (g.answer call id s).Yields False bound fun a => Answered g pending (g.Nullable id) s a.1 a.2 := by
  unfold answer
  rw [hnode]
  dsimp only
  split
  · rename_i h
    exact (Node.eval_answered hnode hs (hhidden ⟨node, hnode, h⟩)).mono fun a ha => ha.1
  · rename_i h
    have hvisible : g.isVisible id = true := (isVisible_iff hnode).2 (by simpa using h)
    have hnoted := alike_emit s .memoCheck node.label s.cursor s.cursor
    have hs' := hs.alike hnoted
    split
    · rename_i memo hmemo
      exact (Node.answerFromMemo_answered hs' hmemo).mono fun a ha => ha.of_alike hnoted
    · rename_i hnone
      have hnone' : s.remembered? id = none := by simpa [Session.remembered?] using hnone
      refine (Node.answerFirst_answered hnode hvisible hs' hnone fun u hu => ?_).mono
        fun a ha => ha.of_alike hnoted
      rw [cursor_emit]
      refine hrule hvisible hnone' u ⟨?_, ?_, ?_, ?_, ?_⟩
      · simpa using hu.sound
      · simpa using hu.input_eq
      · simpa using hu.cursor_eq
      · simpa using hu.kept
      · simpa using hu.isSome

end Grammar

end Packrat
