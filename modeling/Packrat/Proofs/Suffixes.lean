import Packrat.Proofs.Ending
import Packrat.Proofs.Shifting

/-!
# A match depends on the rest of the input

The matcher never asks what stands before the cursor, nor how much. So a run from a session with more characters in
front goes through the same steps, with every position moved by their number. This is shown of each form of pattern,
given that it holds of the calls inside, then of the calls of rules, and so of runs of any depth.
-/

namespace Packrat

open Session

namespace Run

variable {α β γ δ : Type}

/-- The run with another value; an error is met with more characters in front of the input. -/
def carry (before : Array Char) (f : α → β) : Run α → Run β
  | .done a => .done (f a)
  | .fault e s => .fault (e.shift before.size) (s.after before)
  | .exhausted => .exhausted

/-- Carrying a run along and going on is carrying along what it goes on to. -/
theorem carry_bind {before : Array Char} {f : α → γ} {f' : β → δ} {k : α → Run β} {k' : γ → Run δ} (r : Run α)
    (h : ∀ a, k' (f a) = (k a).carry before f') : (r.carry before f >>= k') = (r >>= k).carry before f' := by
  cases r with
  | done a => exact h a
  | fault e s => rfl
  | exhausted => rfl

theorem carry_eq_done_iff {before : Array Char} {f : α → β} {r : Run α} {b : β} :
    r.carry before f = .done b ↔ ∃ a, r = .done a ∧ f a = b := by
  cases r <;> simp [carry]

end Run

namespace Session

def answerAfter (before : Array Char) (a : Match × Session) : Match × Session :=
  (a.1.shift before.size, a.2.after before)

def loopAfter (before : Array Char) (a : Nat × Match × Session) : Nat × Match × Session :=
  (a.1, answerAfter before a.2)

theorem moveToR_after (before : Array Char) (s : Session) (position : Nat) :
    (s.after before).moveToR (before.size + position) =
      (s.moveToR position).carry before (Session.after before) := by
  unfold moveToR moveTo
  rw [length_after]
  by_cases h : position ≤ s.length
  · rw [if_pos h, if_pos (Nat.add_le_add_left h _)]
    rfl
  · rw [if_neg h, if_neg (by omega)]
    rfl

end Session

def Evaluator.IgnoresFront (before : Array Char) (call : Evaluator) : Prop :=
  ∀ id s, call id (s.after before) = (call id s).carry before (answerAfter before)

variable {before : Array Char} {call : Evaluator}

namespace Pattern

theorem matchLiteral_after (label text : String) (s : Session) :
    matchLiteral label text (s.after before) =
      (matchLiteral label text s).carry before (answerAfter before) := by
  unfold matchLiteral
  dsimp only
  rw [commonLength_after, cursor_after]
  split
  · rw [Nat.add_assoc, noteFailure_after, ← Match.shift_fail]
    rfl
  · rw [Nat.add_assoc, moveToR_after]
    refine Run.carry_bind _ fun t => ?_
    rw [emit_after, ← Match.shift_leaf]
    rfl

theorem matchClass_after (label : String) (cls : CharClass) (s : Session) :
    matchClass label cls (s.after before) =
      (matchClass label cls s).carry before (answerAfter before) := by
  unfold matchClass
  dsimp only
  rw [peek?_after, cursor_after]
  cases s.peek? with
  | none =>
    dsimp only
    rw [noteFailure_after, ← Match.shift_fail]
    rfl
  | some c =>
    dsimp only
    split
    · rw [Nat.add_assoc, moveToR_after]
      refine Run.carry_bind _ fun t => ?_
      rw [emit_after, ← Match.shift_leaf]
      rfl
    · rw [noteFailure_after, ← Match.shift_fail]
      rfl

theorem matchItems_after (hcall : call.IgnoresFront before) (start : Nat) (items : List NodeId) (acc : Match)
    (s : Session) :
    matchItems call (before.size + start) items (acc.shift before.size) (s.after before) =
      (matchItems call start items acc s).carry before (answerAfter before) := by
  induction items generalizing acc s with
  | nil => rfl
  | cons item rest ih =>
    rw [matchItems, matchItems, hcall]
    refine Run.carry_bind _ ?_
    rintro ⟨child, t⟩
    simp only [answerAfter, Match.success_shift]
    split
    · rw [← Match.shift_push, ih]
    · rw [moveToR_after]
      refine Run.carry_bind _ fun u => ?_
      rw [← Match.shift_fail]
      rfl

theorem matchAlternatives_after (hcall : call.IgnoresFront before) (start : Nat) (alternatives : List NodeId)
    (s : Session) :
    matchAlternatives call (before.size + start) alternatives (s.after before) =
      (matchAlternatives call start alternatives s).carry before (answerAfter before) := by
  induction alternatives generalizing s with
  | nil =>
    rw [matchAlternatives, ← Match.shift_fail]
    rfl
  | cons alternative rest ih =>
    rw [matchAlternatives, matchAlternatives, hcall]
    refine Run.carry_bind _ ?_
    rintro ⟨child, t⟩
    simp only [answerAfter, Match.success_shift]
    split
    · rw [← Match.shift_empty, ← Match.shift_push]
      rfl
    · rw [moveToR_after]
      exact Run.carry_bind _ fun u => ih u

/-- A round takes some characters wherever it begins. -/
theorem matchRounds_after (hcall : call.IgnoresFront before) (body : NodeId) (min : Nat) (max? : Option Nat)
    (rounds count : Nat) (acc : Match) (s : Session) :
    matchRounds call body min max? rounds count (acc.shift before.size) (s.after before) =
      (matchRounds call body min max? rounds count acc s).carry before (loopAfter before) := by
  induction rounds generalizing count acc s with
  | zero => rfl
  | succ rounds ih =>
    rw [matchRounds, matchRounds]
    split
    · dsimp only
      rw [hcall]
      refine Run.carry_bind _ ?_
      rintro ⟨child, t⟩
      simp only [answerAfter, Match.success_shift, Match.stop_shift, cursor_after, ← Match.shift_push,
        Nat.add_lt_add_iff_left]
      split
      · rw [moveToR_after]
        exact Run.carry_bind _ fun u => rfl
      · split
        · exact ih (count + 1) (acc.push child) t
        · rfl
    · rfl

theorem matchRepetition_after (hcall : call.IgnoresFront before) (body : NodeId) (min : Nat) (max? : Option Nat)
    (s : Session) :
    matchRepetition call body min max? (s.after before) =
      (matchRepetition call body min max? s).carry before (answerAfter before) := by
  unfold matchRepetition
  dsimp only
  rw [length_after, cursor_after, Nat.add_sub_add_left, ← Match.shift_empty, matchRounds_after hcall]
  refine Run.carry_bind _ ?_
  rintro ⟨count, m, t⟩
  change (if count < min then (t.after before).moveToR (before.size + s.cursor) >>= fun u =>
      Run.done (.fail (before.size + s.cursor), u) else .done (m.shift before.size, t.after before)) = _
  split
  · rw [moveToR_after]
    refine Run.carry_bind _ fun u => ?_
    rw [← Match.shift_fail]
    rfl
  · rfl

theorem matchPredicate_after (hcall : call.IgnoresFront before) (body : NodeId) (expected : Bool) (s : Session) :
    matchPredicate call body expected (s.after before) =
      (matchPredicate call body expected s).carry before (answerAfter before) := by
  unfold matchPredicate
  dsimp only
  rw [hcall]
  refine Run.carry_bind _ ?_
  rintro ⟨child, t⟩
  simp only [answerAfter, Match.success_shift, cursor_after, moveToR_after]
  refine Run.carry_bind _ fun u => ?_
  rw [furthestFailure?_after, restoreFailure_after, ← Match.shift_empty, ← Match.shift_fail]
  split <;> rfl

theorem matchRule_after (hcall : call.IgnoresFront before) (body : NodeId) (s : Session) :
    matchRule call body (s.after before) =
      (matchRule call body s).carry before (answerAfter before) := by
  unfold matchRule
  rw [hcall]
  refine Run.carry_bind _ ?_
  rintro ⟨child, t⟩
  simp only [answerAfter, Match.success_shift, Match.hidden_shift, Match.start_shift, ← Match.shift_empty,
    ← Match.shift_push]
  split <;> rfl

theorem eval_after (hcall : call.IgnoresFront before) (label : String) (s : Session) (pattern : Pattern) :
    pattern.eval call label (s.after before) =
      (pattern.eval call label s).carry before (answerAfter before) := by
  cases pattern with
  | literal text => exact matchLiteral_after label text s
  | charClass cls => exact matchClass_after label cls s
  | sequence items =>
    have h := matchItems_after hcall s.cursor items (.empty s.cursor) s
    rwa [Match.shift_empty] at h
  | choice alternatives => exact matchAlternatives_after hcall s.cursor alternatives s
  | repetition body min max? => exact matchRepetition_after hcall body min max? s
  | predicate body expected => exact matchPredicate_after hcall body expected s
  | rule body => exact matchRule_after hcall body s

end Pattern

namespace Node

variable (node : Node) (id : NodeId)

theorem eval_after (hcall : call.IgnoresFront before) (s : Session) :
    node.eval call (s.after before) = (node.eval call s).carry before (answerAfter before) := by
  unfold Node.eval
  dsimp only
  rw [cursor_after, emit_after, Pattern.eval_after hcall]
  refine Run.carry_bind _ ?_
  rintro ⟨m, t⟩
  simp only [answerAfter, ← Match.shift_stamp, Match.success_shift, Match.start_shift, Match.stop_shift, emit_after]
  split <;> rfl

theorem answerFromMemo_after (memo : Match) (s : Session) :
    node.answerFromMemo id (memo.shift before.size) (s.after before) =
      (node.answerFromMemo id memo s).carry before (answerAfter before) := by
  have hmark : ∀ t : Session, (if memo.status = .possible then
        Run.done ((memo.shift before.size).withStatus .detected, ((t.after before).remember (before.size + s.cursor) id
          ((memo.shift before.size).withStatus .detected)).emit .identifyLeftRecursion node.label
            (before.size + s.cursor) (before.size + s.cursor))
        else .done (memo.shift before.size, (t.after before).emit (.assumeResult memo.status) node.label
          (before.size + memo.start) (before.size + memo.stop))) =
      (if memo.status = .possible then
        Run.done (memo.withStatus .detected, (t.remember s.cursor id (memo.withStatus .detected)).emit
          .identifyLeftRecursion node.label s.cursor s.cursor)
        else .done (memo, t.emit (.assumeResult memo.status) node.label memo.start memo.stop)).carry
          before (answerAfter before) := by
    intro t
    rw [← Match.shift_withStatus, remember_after, emit_after, emit_after]
    split <;> rfl
  unfold answerFromMemo
  simp only [Match.success_shift, Match.stop_shift, Match.start_shift, Match.status_shift, cursor_after, moveToR_after]
  split
  · exact Run.carry_bind _ hmark
  · exact hmark s

/-- An attempt goes further than the last one wherever it begins. -/
theorem growRounds_after (hcall : call.IgnoresFront before) (initial rounds iteration : Nat) (committed : Match)
    (s : Session) :
    growRounds call node id (before.size + initial) rounds iteration (committed.shift before.size)
        (s.after before) =
      (growRounds call node id initial rounds iteration committed s).carry before (loopAfter before) := by
  induction rounds generalizing iteration committed s with
  | zero => rfl
  | succ rounds ih =>
    rw [growRounds, growRounds]
    dsimp only
    rw [Match.stop_shift, emit_after, moveToR_after]
    refine Run.carry_bind _ fun t => ?_
    rw [eval_after node hcall]
    refine Run.carry_bind _ ?_
    rintro ⟨attempt, u⟩
    simp only [answerAfter, ← Match.shift_withStatus, Match.success_shift, Match.stop_shift, emit_after, save_after,
      Nat.add_le_add_iff_left]
    split
    · rfl
    · split
      · rfl
      · exact ih (iteration + 1) (attempt.withStatus .detected) _

theorem grow_after (hcall : call.IgnoresFront before) (initial : Nat) (seed : Match) (s : Session) :
    node.grow call id (before.size + initial) (seed.shift before.size) (s.after before) =
      (node.grow call id initial seed s).carry before (answerAfter before) := by
  unfold grow
  rw [length_after, Match.stop_shift, Nat.add_sub_add_left, growRounds_after node id hcall]
  refine Run.carry_bind _ ?_
  rintro ⟨iterations, committed, t⟩
  dsimp only [loopAfter, answerAfter]
  rw [Match.stop_shift, emit_after, moveToR_after]
  exact Run.carry_bind _ fun u => rfl

theorem answerFirst_after (hcall : call.IgnoresFront before) (s : Session) :
    node.answerFirst call id (s.after before) =
      (node.answerFirst call id s).carry before (answerAfter before) := by
  unfold answerFirst
  dsimp only
  rw [cursor_after, ← Match.shift_placeholder, remember_after, eval_after node hcall]
  refine Run.carry_bind _ ?_
  rintro ⟨m, t⟩
  have hmark : (((t.after before).memo.get? (before.size + s.cursor) id).map Match.status).getD .possible =
      ((t.memo.get? s.cursor id).map Match.status).getD .possible := by
    rw [memo_after, MemoTable.get?_shift]
    cases t.memo.get? s.cursor id <;> simp
  simp only [answerAfter, hmark, Match.success_shift, ← Match.shift_withStatus, save_after, Match.start_shift,
    Match.stop_shift, emit_after]
  split
  · exact grow_after node id hcall s.cursor (m.withStatus .detected) _
  · rfl

end Node

namespace Grammar

variable {g : Grammar} {id : NodeId} {s t : Session} {m : Match}

theorem answer_ignoresFront (g : Grammar) (hcall : call.IgnoresFront before) : (g.answer call).IgnoresFront before := by
  intro id s
  unfold answer
  cases g.node? id with
  | none => rfl
  | some node =>
    dsimp only
    split
    · exact Node.eval_after node hcall s
    · rw [cursor_after, emit_after, remembered?_after]
      cases (s.emit .memoCheck node.label s.cursor s.cursor).remembered? id with
      | none => exact Node.answerFirst_after node id hcall _
      | some memo => exact Node.answerFromMemo_after node id memo _

theorem run_ignoresFront (g : Grammar) (before : Array Char) (depth : Nat) : (g.run depth).IgnoresFront before := by
  induction depth with
  | zero => exact fun _ _ => rfl
  | succ depth ih => exact answer_ignoresFront g ih

theorem matches_after_iff {before : Array Char} {n : Match} {u : Session} : g.Matches id (s.after before) n u ↔
    ∃ m t, g.Matches id s m t ∧ m.shift before.size = n ∧ t.after before = u := by
  constructor
  · rintro ⟨depth, h⟩
    rw [run_ignoresFront g before depth] at h
    obtain ⟨⟨m, t⟩, h, heq⟩ := Run.carry_eq_done_iff.1 h
    obtain ⟨hm, ht⟩ := Prod.mk.inj heq
    exact ⟨m, t, ⟨depth, h⟩, hm, ht⟩
  · rintro ⟨m, t, ⟨depth, h⟩, rfl, rfl⟩
    exact ⟨depth, by rw [run_ignoresFront, h]; rfl⟩

/-- Where matching ends, it does so with characters in front as well, though the depth that it is allowed is another
one then. -/
theorem matchAt_after (hg : g.WellFormed) (hcycle : g.NoHiddenCycle) (hs : s.Sound g .none) (before : Array Char) :
    g.matchAt id (s.after before) = (g.matchAt id s).carry before (answerAfter before) := by
  by_cases hid : g.contains id = true
  · obtain ⟨m, t, h⟩ := run_ends hg hcycle hs (contains_iff.1 hid)
    have hle : g.depthBound s.length ≤ g.depthBound (s.after before).length := by
      unfold depthBound
      rw [length_after]
      exact Nat.mul_le_mul_right _ (Nat.mul_le_mul_right _ (by omega))
    rw [matchAt, matchAt, if_pos hid, if_pos hid, run_ignoresFront, h _ hle, h _ (Nat.le_refl _)]
  · rw [matchAt, matchAt, if_neg hid, if_neg hid]
    rfl

/-- A match depends only on the rest of the input. A new session with the cursor at some position, and a new session
over the rest of the input from there, match a node with the same steps: at every depth both runs end or neither
does, and the match with its tree, the cursor, the furthest failure, the events and the memo table are the same but
for their positions, which differ by that of the cursor. If no cycle of leftmost components is all hidden, both
matches end. -/
theorem Built.match_depends_on_rest (hg : g.Built) (id : NodeId) (input : String) (options : Options) {position : Nat}
    {s : Session} (hs : (Session.start input options).moveTo position = .ok s) :
    (front input position).size = position ∧
      (∀ depth, g.run depth id s =
        (g.run depth id (Session.start (rest input position) options)).carry (front input position)
          (answerAfter (front input position))) ∧
      (∀ n u, g.Matches id s n u ↔
        ∃ m v, g.Matches id (Session.start (rest input position) options) m v ∧ m.shift position = n ∧
          v.after (front input position) = u) ∧
      (g.NoHiddenCycle →
        g.matchAt id s = (g.matchAt id (Session.start (rest input position) options)).carry (front input position)
          (answerAfter (front input position)) ∧
        (g.contains id = true →
          ∃ m v, g.matchAt id (Session.start (rest input position) options) = .done (m, v))) := by
  obtain ⟨hle, rfl⟩ := eq_seek_of_moveTo hs
  have hposition : position ≤ input.length := by rwa [← String.length_toList]
  have hsize := size_front hposition
  have hafter := seek_start_eq_after options hposition
  refine ⟨hsize, fun depth => ?_, fun n u => ?_, fun hcycle => ⟨?_, fun hid => ?_⟩⟩
  · rw [hafter, run_ignoresFront]
  · rw [hafter, matches_after_iff, hsize]
  · rw [hafter, matchAt_after hg.wellFormed hcycle (sound_start g _ options)]
  · exact matchAt_ends hg.wellFormed hcycle (sound_start g _ options) hid

/-- The sum of `1+2` is found again one character further in `x1+2`. -/
theorem sum_match_depends_on_rest : ∃ m v,
    Reference.expression.build.grammar.Matches 3 (Session.start (rest "x1+2" 1) {}) m v ∧ m.success = true ∧
      v.cursor = 3 ∧ Reference.expression.build.grammar.Matches 3 ((Session.start "x1+2" {}).seek 1) (m.shift 1)
        (v.after (front "x1+2" 1)) ∧ (v.after (front "x1+2" 1)).cursor = 4 := by
  obtain ⟨m, v, h, hsuccess, hcursor⟩ := exists_matches (by decide +kernel :
    (Reference.expression.build.grammar.matchAt 3 (Session.start (rest "x1+2" 1) {})).Yields False False
      fun a => a.1.success = true ∧ a.2.cursor = 3)
  obtain ⟨hsize, _, hmatches, _⟩ := Built.match_depends_on_rest Reference.expression.built 3 "x1+2" {}
    (moveTo_of_le (by decide +kernel : 1 ≤ (Session.start "x1+2" {}).length))
  refine ⟨m, v, h, hsuccess, hcursor, (hmatches _ _).2 ⟨m, v, h, rfl, rfl⟩, ?_⟩
  rw [cursor_after, hsize, hcursor]

end Grammar

end Packrat
