import Packrat.Proofs.CallSteps
import Packrat.Proofs.Contexts
import Packrat.Proofs.Notes

/-!
# Charts

Where it is known what the rules of a grammar match, and how far the input is looked at for that, the memo table is
a chart of these outcomes: each entry is one of them, other than those of pending calls, and the furthest failure is
no less far than the input has been looked at for it. So it makes no difference whether a rule is found in the table
or tried. The events of a match are passed over; the furthest failure is not.
-/

namespace Packrat

open Session

/-- What is noted of failures: whether they are at all, and the furthest of them. -/
structure FailureNotes where
  tracks : Bool
  furthest? : Option Nat

namespace FailureNotes

def add (notes : FailureNotes) (position : Nat) : FailureNotes :=
  if notes.tracks then { notes with furthest? := some (notes.furthest?.elim position (max · position)) } else notes

variable {notes : FailureNotes} {a b : Nat}

theorem add_add (notes : FailureNotes) (a b : Nat) : (notes.add a).add b = notes.add (max a b) := by
  obtain ⟨_ | _, _ | furthest⟩ := notes
  · rfl
  · rfl
  · rfl
  · simp [add, Nat.max_assoc]

theorem add_of_le (h : b ≤ a) : (notes.add a).add b = notes.add a := by
  rw [add_add, Nat.max_eq_left h]

theorem add_of_ge (h : a ≤ b) : (notes.add a).add b = notes.add b := by
  rw [add_add, Nat.max_eq_right h]

theorem add_add_of_noted (h : notes.add b = notes) : (notes.add a).add b = notes.add a := by
  rw [add_add, Nat.max_comm, ← add_add, h]

end FailureNotes

namespace Session

def failureNotes (s : Session) : FailureNotes := ⟨s.diagnostics.tracksFailures, s.furthestFailure?⟩

variable {s t u : Session} {position : Nat} {id : NodeId} {m : Match}

theorem failureNotes_noteFailure (s : Session) (position : Nat) :
    (s.noteFailure position).failureNotes = s.failureNotes.add position := by
  unfold failureNotes FailureNotes.add
  dsimp only
  rw [tracksFailures_noteFailure]
  cases htracks : s.diagnostics.tracksFailures with
  | false => rw [furthestFailure?_noteFailure_of_not_tracks htracks, if_neg Bool.false_ne_true]
  | true =>
    rw [furthestFailure?_noteFailure_of_tracks htracks, if_pos rfl]
    cases s.furthestFailure? <;> rfl

@[simp] theorem failureNotes_emit (s : Session) (kind : EventKind) (label : String) (start stop : Nat) :
    (s.emit kind label start stop).failureNotes = s.failureNotes := by
  simp only [failureNotes, tracksFailures_emit, furthestFailure?_emit]

@[simp] theorem failureNotes_seek : (s.seek position).failureNotes = s.failureNotes := rfl

@[simp] theorem failureNotes_remember : (s.remember position id m).failureNotes = s.failureNotes := rfl

@[simp] theorem failureNotes_save (label : String) : (s.save position id label m).failureNotes = s.failureNotes :=
  failureNotes_emit ..

structure EventsApart (s t : Session) : Prop extends s.Alike t where
  failureNotes_eq : s.failureNotes = t.failureNotes

theorem eventsApart_emit (s : Session) (kind : EventKind) (label : String) (start stop : Nat) :
    (s.emit kind label start stop).EventsApart s :=
  ⟨alike_emit .., failureNotes_emit ..⟩

theorem EventsApart.trans (h : s.EventsApart t) (h' : t.EventsApart u) : s.EventsApart u :=
  ⟨h.toAlike.trans h'.toAlike, h.failureNotes_eq.trans h'.failureNotes_eq⟩

theorem EventsApart.seek (h : s.EventsApart t) (position : Nat) : (s.seek position).EventsApart (t.seek position) :=
  ⟨h.toAlike.seek position, h.failureNotes_eq⟩

end Session

/-! ## What calls consist of, events aside -/

theorem Node.eval_cases {call : Evaluator} {node : Node} {s t : Session} {m : Match}
    (h : node.eval call s = .done (m, t)) :
    ∃ s' n t', s'.EventsApart s ∧ node.pattern.eval call node.label s' = .done (n, t') ∧ m = n.stamp node.origin ∧
      t.EventsApart t' := by
  obtain ⟨n, u, hn, rfl, rfl⟩ := Node.eval_eq_done_iff.1 h
  refine ⟨_, n, u, Session.eventsApart_emit .., hn, rfl, ?_⟩
  split
  · exact Session.eventsApart_emit ..
  · exact Session.eventsApart_emit ..

/-- A round of a growth is a trial, after which the growth is over or the match is saved. -/
theorem Node.growRounds_trial_cases {call : Evaluator} {node : Node} {id : NodeId} {initial rounds iteration k : Nat}
    {committed m : Match} {s t : Session}
    (h : node.growRounds call id initial (rounds + 1) iteration committed s = .done (k, m, t)) :
    initial ≤ s.length ∧ ∃ (s' : Session) (attempt : Match) (v : Session), s'.EventsApart (s.seek initial) ∧
      node.eval call s' = .done (attempt, v) ∧
      ((attempt.success = true → attempt.stop ≤ committed.stop) ∧ m = committed ∧ t.EventsApart v ∨
        attempt.success = true ∧ committed.stop < attempt.stop ∧ ∃ v' : Session, v'.EventsApart v ∧
          node.growRounds call id initial rounds (iteration + 1) (attempt.withStatus .detected)
            (v'.save initial id node.label (attempt.withStatus .detected)) = .done (k, m, t)) := by
  obtain ⟨hle, attempt, v, hattempt, hcase⟩ := growRounds_eq_done_iff.1 h
  refine ⟨hle, _, attempt, v, (Session.eventsApart_emit ..).seek initial, hattempt, ?_⟩
  rcases hcase with ⟨hfail, _, rfl, rfl⟩ | ⟨_, hstill, _, rfl, rfl⟩ | ⟨hsuccess, hfurther, h⟩
  · exact .inl ⟨fun hsuccess => by simp [hfail] at hsuccess, rfl, Session.eventsApart_emit ..⟩
  · exact .inl ⟨fun _ => hstill, rfl, Session.eventsApart_emit ..⟩
  · exact .inr ⟨hsuccess, hfurther, _, Session.eventsApart_emit .., h⟩

namespace Grammar

variable {g : Grammar} {pending : Pending} {id : NodeId} {node : Node} {depth : Nat} {s t : Session} {m memo : Match}

theorem run_hidden_cases (hnode : g.node? id = some node) (hhidden : node.hidden = true)
    (h : g.run depth id s = .done (m, t)) :
    ∃ d s' n t', depth = d + 1 ∧ s'.EventsApart s ∧ node.pattern.eval (g.run d) node.label s' = .done (n, t') ∧
      m = n.stamp node.origin ∧ t.EventsApart t' := by
  cases depth with
  | zero => nomatch h
  | succ d =>
    rw [run_of_hidden hnode hhidden] at h
    obtain ⟨s', n, t', hs', hn, hm, ht⟩ := Node.eval_cases h
    exact ⟨d, s', n, t', rfl, hs', hn, hm, ht⟩

/-- A rule that is in the table is given as it is, unless it is a placeholder, which is marked. -/
theorem run_remembered_cases (hs : s.Sound g pending) (hnode : g.node? id = some node) (hhidden : node.hidden = false)
    (hmemo : s.memo.get? s.cursor id = some memo) (h : g.run depth id s = .done (m, t)) :
    (memo.status = .possible ∧ m = memo.withStatus .detected ∧ t.memo = s.memo.insert s.cursor id m ∨
      memo.status ≠ .possible ∧ m = memo ∧ t.memo = s.memo) ∧ t.failureNotes = s.failureNotes := by
  cases depth with
  | zero => nomatch h
  | succ d =>
    have hs' := hs.alike (alike_emit s .memoCheck node.label s.cursor s.cursor)
    rw [run, answer_of_remembered hnode hhidden hmemo,
      Node.answerFromMemo_eq (hs'.placed (by rwa [memo_emit, cursor_emit]))] at h
    by_cases hstatus : memo.status = .possible
    · rw [if_pos hstatus] at h
      obtain ⟨rfl, rfl⟩ := Prod.mk.inj (Run.done.inj h)
      simp [hstatus]
    · rw [if_neg hstatus] at h
      obtain ⟨rfl, rfl⟩ := Prod.mk.inj (Run.done.inj h)
      simp [hstatus]

theorem run_first_cases (hnode : g.node? id = some node) (hhidden : node.hidden = false)
    (hnone : s.memo.get? s.cursor id = none) (h : g.run depth id s = .done (m, t)) :
    ∃ d s', depth = d + 1 ∧ s'.EventsApart s ∧ node.answerFirst (g.run d) id s' = .done (m, t) := by
  cases depth with
  | zero => nomatch h
  | succ d =>
    rw [run, answer_of_absent hnode hhidden hnone] at h
    exact ⟨d, _, rfl, eventsApart_emit .., h⟩

end Grammar

/-! ## The table as a chart -/

/-- What the match of a rule may be at a position of an input, and how far the input is looked at for it. -/
abbrev Outcomes := NodeId → Array Char → Nat → Match → Nat → Prop

namespace Session

/-- The entries of the table are outcomes, except for pending calls, and the furthest failure is no less far than the
input has been looked at for any of them. -/
structure Charted (g : Grammar) (outcomes : Outcomes) (pending : Pending) (s : Session) : Prop
    extends Sound g pending s where
  entry : ∀ {q r e}, s.memo.get? q r = some e → ¬ pending q r →
    ∃ reach, outcomes r s.input q e reach ∧ s.failureNotes.add reach = s.failureNotes

/-- The call of a rule has given one of the outcomes, and the input has been looked at as far as that says. -/
structure Finds (g : Grammar) (outcomes : Outcomes) (pending : Pending) (id : NodeId) (s : Session) (m : Match)
    (t : Session) : Prop where
  charted : t.Charted g outcomes pending
  found : ∃ reach, outcomes id s.input s.cursor m reach ∧ t.failureNotes = s.failureNotes.add reach

variable {g : Grammar} {outcomes : Outcomes} {pending : Pending} {id : NodeId} {node : Node} {s t u : Session}
  {m : Match} {position reach : Nat}

theorem Charted.start (g : Grammar) (outcomes : Outcomes) (input : String) (options : Options) :
    (Session.start input options).Charted g outcomes .none where
  toSound := Grammar.sound_start g input options
  entry he _ := by simp [Session.start] at he

/-- Further failures may be noted, and entries of pending calls may be written over. -/
theorem Charted.of_entries (hs : s.Charted g outcomes pending) (ht : t.Sound g pending) (hinput : t.input = s.input)
    (hmemo : ∀ q r, ¬ pending q r → t.memo.get? q r = s.memo.get? q r)
    (hnotes : t.failureNotes = s.failureNotes ∨ ∃ position, t.failureNotes = s.failureNotes.add position) :
    t.Charted g outcomes pending where
  toSound := ht
  entry {q r e} he hp := by
    rw [hmemo q r hp] at he
    obtain ⟨reach, hout, hnoted⟩ := hs.entry he hp
    refine ⟨reach, hinput ▸ hout, ?_⟩
    rcases hnotes with heq | ⟨position, heq⟩
    · rw [heq, hnoted]
    · rw [heq, FailureNotes.add_add_of_noted hnoted]

theorem Charted.eventsApart (hs : s.Charted g outcomes pending) (h : t.EventsApart s) : t.Charted g outcomes pending :=
  hs.of_entries (hs.toSound.alike h.toAlike) h.input_eq (fun _ _ _ => by rw [h.memo_eq]) (.inl h.failureNotes_eq)

theorem Charted.seek (hs : s.Charted g outcomes pending) (hle : position ≤ s.length) :
    (s.seek position).Charted g outcomes pending :=
  hs.of_entries (hs.toSound.seek hle) rfl (fun _ _ _ => rfl) (.inl rfl)

theorem Charted.begin (hs : s.Charted g outcomes pending) (hvisible : g.isVisible id = true) :
    (s.remember s.cursor id (.placeholder s.cursor)).Charted g outcomes (pending.add s.cursor id) where
  toSound := hs.toSound.begin hvisible
  entry {q r e} he hp := by
    rw [memo_remember, MemoTable.get?_insert_of_ne fun heq => hp (.inr heq)] at he
    exact hs.entry he fun hp' => hp (.inl hp')

theorem Charted.save (hs : s.Charted g outcomes (pending.add position id)) (hvisible : g.isVisible id = true)
    (hm : m.Placed s.input position (g.Nullable id)) (label : String) :
    (s.save position id label m).Charted g outcomes (pending.add position id) := by
  have hsound := hs.toSound.remember hvisible hm fun hp => absurd (.inr ⟨rfl, rfl⟩) hp
  refine hs.of_entries (hsound.alike (alike_save ..)) (input_save ..) (fun q r hq => ?_) (.inl (failureNotes_save ..))
  rw [memo_save]
  exact MemoTable.get?_insert_of_ne fun heq => hq (.inr heq)

/-- What a rule has given in the end takes the place of its placeholder. -/
theorem Charted.finish (hu : u.Charted g outcomes (pending.add s.cursor id)) (ht : t.Sound g pending)
    (hinput : u.input = s.input) (hnotes : u.failureNotes = s.failureNotes.add reach)
    (hout : outcomes id s.input s.cursor m reach) (htinput : t.input = u.input)
    (htnotes : t.failureNotes = u.failureNotes) (hentry : t.memo.get? s.cursor id = some m)
    (hmemo : ∀ q r, ¬ (q = s.cursor ∧ r = id) → t.memo.get? q r = u.memo.get? q r) :
    Finds g outcomes pending id s m t := by
  refine ⟨⟨ht, ?_⟩, reach, hout, htnotes.trans hnotes⟩
  intro q r e he hp
  rw [htinput, htnotes]
  by_cases heq : q = s.cursor ∧ r = id
  · obtain ⟨rfl, rfl⟩ := heq
    obtain rfl := Option.some.inj (hentry.symm.trans he)
    refine ⟨reach, hinput ▸ hout, ?_⟩
    rw [hnotes, FailureNotes.add_of_le (Nat.le_refl reach)]
  · rw [hmemo q r heq] at he
    exact hu.entry he fun hp' => hp'.elim hp heq

theorem Finds.eventsApart (h : Finds g outcomes pending id t m u) (hs : t.EventsApart s) :
    Finds g outcomes pending id s m u := by
  obtain ⟨reach, hout, hnotes⟩ := h.found
  rw [hs.input_eq, hs.cursor_eq] at hout
  rw [hs.failureNotes_eq] at hnotes
  exact ⟨h.charted, reach, hout, hnotes⟩

/-- A rule that is found has been tried before, and the input has been looked at for it. -/
theorem Charted.finds (hs : s.Charted g outcomes pending) (hg : g.WellFormed) (hnode : g.node? id = some node)
    (hhidden : node.hidden = false) (hp : ¬ pending s.cursor id) {memo : Match} {depth : Nat}
    (hmemo : s.memo.get? s.cursor id = some memo) (h : g.run depth id s = .done (m, t)) :
    Finds g outcomes pending id s m t := by
  obtain ⟨reach, hout, hnoted⟩ := hs.entry hmemo hp
  have hanswered := (Grammar.answered_of_run hg hs.toSound h).2
  obtain ⟨⟨hpossible, _⟩ | ⟨_, rfl, ht⟩, hnotes⟩ := Grammar.run_remembered_cases hs.toSound hnode hhidden hmemo h
  · exact absurd hpossible (hs.settled hmemo hp).status_ne
  · refine ⟨?_, reach, hout, by rw [hnotes, hnoted]⟩
    exact hs.of_entries hanswered.within.sound hanswered.within.input_eq (fun _ _ _ => by rw [ht]) (.inl hnotes)

end Session

end Packrat
