import Packrat.Matcher.Parse
import Packrat.Proofs.Contexts

/-!
# Notes decide nothing

What is noted down during a match is written at every step, and the furthest failure is even read back
where a lookahead is left. None of this has a say in the match. Two sessions that differ in their notes
alone give the same match at every depth, leave the same memo table, and meet the same error or the same
bound; and where both keep a furthest failure, it is the same.
-/

namespace Packrat

open Session

namespace Run

variable {α β γ δ : Type} {S : Session → Session → Prop} {R : α → β → Prop} {R' : γ → δ → Prop} {r : Run α} {r' : Run β}

/-- The runs end alike: with related values, with the same error in related sessions, or both at a bound. -/
inductive EndAlike (S : Session → Session → Prop) (R : α → β → Prop) : Run α → Run β → Prop
  | done {a : α} {b : β} (h : R a b) : EndAlike S R (.done a) (.done b)
  | fault (e : MatchError) {s t : Session} (h : S s t) : EndAlike S R (.fault e s) (.fault e t)
  | exhausted : EndAlike S R .exhausted .exhausted

theorem EndAlike.bind {f : α → Run γ} {f' : β → Run δ} (h : EndAlike S R r r')
    (hf : ∀ a b, R a b → EndAlike S R' (f a) (f' b)) : EndAlike S R' (r >>= f) (r' >>= f') := by
  cases h with
  | done h => exact hf _ _ h
  | fault e h => exact .fault e h
  | exhausted => exact .exhausted

/-- Of two runs without a fault, each of which follows the other, neither ends alone. -/
theorem endAlike_of_yields (hr : ∀ e s, r ≠ .fault e s) (hr' : ∀ e s, r' ≠ .fault e s)
    (h : ∀ a, r = .done a → r'.Yields False False fun b => R a b)
    (h' : ∀ b, r' = .done b → r.Yields False False fun a => R a b) : EndAlike S R r r' := by
  cases r with
  | done a =>
    obtain ⟨b, rfl, hab⟩ := (h a rfl).exists_done
    exact .done hab
  | fault e s => exact absurd rfl (hr e s)
  | exhausted =>
    cases r' with
    | done b => exact (h' b rfl).elim
    | fault e s => exact absurd rfl (hr' e s)
    | exhausted => exact .exhausted

end Run

namespace Session

/-- The furthest failures of two sessions, as far as each of them keeps one: a session that does not has
none. -/
structure FailuresAgree (tracks tracks' : Bool) (furthest furthest' : Option Nat) : Prop where
  eq : tracks = true → tracks' = true → furthest = furthest'
  left_eq_none : tracks = false → furthest = none
  right_eq_none : tracks' = false → furthest' = none

theorem FailuresAgree.symm {tracks tracks' : Bool} {furthest furthest' : Option Nat}
    (h : FailuresAgree tracks tracks' furthest furthest') : FailuresAgree tracks' tracks furthest' furthest :=
  ⟨fun ht ht' => (h.eq ht' ht).symm, h.right_eq_none, h.left_eq_none⟩

/-- The sessions differ in their notes alone, the first of which keeps failures if `tracks` holds, and the
second if `tracks'` does. -/
structure NotesApart (tracks tracks' : Bool) (s t : Session) : Prop extends s.Alike t where
  tracks_left : s.diagnostics.tracksFailures = tracks
  tracks_right : t.diagnostics.tracksFailures = tracks'
  failures : FailuresAgree tracks tracks' s.furthestFailure? t.furthestFailure?

variable {tracks tracks' : Bool} {s t s₀ t₀ : Session}

theorem NotesApart.symm (h : s.NotesApart tracks tracks' t) : t.NotesApart tracks' tracks s where
  input_eq := h.input_eq.symm
  cursor_eq := h.cursor_eq.symm
  memo_eq := h.memo_eq.symm
  tracks_left := h.tracks_right
  tracks_right := h.tracks_left
  failures := h.failures.symm

@[simp] theorem tracksFailures_emit (s : Session) (kind : EventKind) (label : String) (start stop : Nat) :
    (s.emit kind label start stop).diagnostics.tracksFailures = s.diagnostics.tracksFailures := by
  unfold emit
  split <;> rfl

@[simp] theorem tracksFailures_noteFailure (s : Session) (position : Nat) :
    (s.noteFailure position).diagnostics.tracksFailures = s.diagnostics.tracksFailures := by
  unfold noteFailure Diagnostics.noteFailure
  split <;> rfl

theorem furthestFailure?_noteFailure_of_not_tracks {position : Nat} (h : s.diagnostics.tracksFailures = false) :
    (s.noteFailure position).furthestFailure? = s.furthestFailure? := by
  unfold noteFailure Diagnostics.noteFailure
  simp [h, furthestFailure?]

theorem furthestFailure?_noteFailure_of_tracks {position : Nat} (h : s.diagnostics.tracksFailures = true) :
    (s.noteFailure position).furthestFailure? =
      some (match s.furthestFailure? with
        | some furthest => max furthest position
        | none => position) := by
  unfold noteFailure Diagnostics.noteFailure
  rw [if_pos h]
  rfl

theorem NotesApart.noteFailure (h : s.NotesApart tracks tracks' t) (position : Nat) :
    (s.noteFailure position).NotesApart tracks tracks' (t.noteFailure position) where
  input_eq := h.input_eq
  cursor_eq := h.cursor_eq
  memo_eq := h.memo_eq
  tracks_left := (tracksFailures_noteFailure s position).trans h.tracks_left
  tracks_right := (tracksFailures_noteFailure t position).trans h.tracks_right
  failures.eq htracks htracks' := by
    rw [furthestFailure?_noteFailure_of_tracks (h.tracks_left.trans htracks),
      furthestFailure?_noteFailure_of_tracks (h.tracks_right.trans htracks'), h.failures.eq htracks htracks']
  failures.left_eq_none htracks := by
    rw [furthestFailure?_noteFailure_of_not_tracks (h.tracks_left.trans htracks), h.failures.left_eq_none htracks]
  failures.right_eq_none htracks' := by
    rw [furthestFailure?_noteFailure_of_not_tracks (h.tracks_right.trans htracks'), h.failures.right_eq_none htracks']

/-- No step of matching looks at the notes, other than to write notes. -/
theorem NotesApart.agreement (tracks tracks' : Bool) :
    Agreement (fun _ => True) (NotesApart tracks tracks') where
  input_eq h := h.input_eq
  cursor_eq h := h.cursor_eq
  seek _ h := { h with cursor_eq := rfl }
  emit kind label start stop h := {
    toAlike := (alike_emit _ kind label start stop).trans (h.toAlike.trans
      ⟨(input_emit ..).symm, (cursor_emit ..).symm, (memo_emit ..).symm⟩)
    tracks_left := (tracksFailures_emit ..).trans h.tracks_left
    tracks_right := (tracksFailures_emit ..).trans h.tracks_right
    failures := by simpa only [furthestFailure?_emit] using h.failures }
  noteFailure position h := h.noteFailure position
  restoreFailure h h₀ := { h with failures := h₀.failures }
  get?_eq _ _ h := by rw [h.memo_eq]
  remember position m _ h := { h with toAlike := h.toAlike.remember position _ m }

/-- Sessions over the same input that have just been started differ in their notes alone. -/
theorem notesApart_start (input : String) (options options' : Options) :
    (Session.start input options).NotesApart options.trackFurthestFailure options'.trackFurthestFailure
      (Session.start input options') where
  input_eq := rfl
  cursor_eq := rfl
  memo_eq := rfl
  tracks_left := rfl
  tracks_right := rfl
  failures := ⟨fun _ _ => rfl, fun _ => rfl, fun _ => rfl⟩

end Session

namespace Grammar

variable {g : Grammar} {tracks tracks' : Bool} {s t : Session} {depth : Nat}

def SameMatch (tracks tracks' : Bool) (a b : Match × Session) : Prop :=
  a.1 = b.1 ∧ a.2.NotesApart tracks tracks' b.2

theorem run_ignores_notes (hg : g.WellFormed) (hs : s.Sound g .none) (hst : s.NotesApart tracks tracks' t)
    (id : NodeId) :
    (g.run depth id s).EndAlike (NotesApart tracks tracks') (SameMatch tracks tracks') (g.run depth id t) := by
  have hfollow : ∀ tracks tracks' u v a, NotesApart tracks tracks' u v → g.run depth id u = .done a →
      (g.run depth id v).Yields False False fun b => SameMatch tracks tracks' a b := by
    rintro tracks tracks' u v ⟨m, u'⟩ huv h
    exact (run_follows (NotesApart.agreement tracks tracks') (fun _ _ _ _ _ _ => trivial) trivial
      (Nat.le_refl depth) u m u' h).2 v huv trivial
  by_cases hid : g.contains id = true
  · refine Run.endAlike_of_yields (run_ne_fault hg hs hid) (run_ne_fault hg (hs.alike hst.symm.toAlike) hid)
      (fun a h => hfollow _ _ s t a hst h) fun b h => ?_
    exact (hfollow _ _ t s b hst.symm h).mono fun a ⟨hm, hab⟩ => ⟨hm.symm, hab.symm⟩
  · -- a node that the grammar does not have is never matched, whatever is noted
    cases depth with
    | zero => exact .exhausted
    | succ depth =>
      have hnone : g.node? id = none := by
        rw [contains_iff] at hid
        exact node?_eq_none_iff.2 (Nat.le_of_not_lt hid)
      simp only [run, answer, hnone]
      exact .fault _ hst

theorem matchAt_ignores_notes (hg : g.WellFormed) (hs : s.Sound g .none) (hst : s.NotesApart tracks tracks' t)
    (id : NodeId) :
    (g.matchAt id s).EndAlike (NotesApart tracks tracks') (SameMatch tracks tracks') (g.matchAt id t) := by
  unfold matchAt
  split
  · rw [← hst.length_eq]
    exact run_ignores_notes hg hs hst id
  · exact .fault _ hst

/-- What two parses with different notes have in common: everything but the notes, which agree on the furthest
failure as far as it is kept. -/
structure SameOutcome (options options' : Options) (o o' : Outcome) : Prop where
  result_eq : o.result = o'.result
  position_eq : o.position = o'.position
  inputLength_eq : o.inputLength = o'.inputLength
  memoEntries_eq : o.memoEntries = o'.memoEntries
  failures : FailuresAgree options.trackFurthestFailure options'.trackFurthestFailure o.furthestFailure?
    o'.furthestFailure?

/-- Diagnostics never change a match. Whatever is noted down, a node is matched at the beginning of an input
with the same match, cursor and memo table, with the same error, or with no end within the same depth; and the
outcomes of the parses differ in their notes alone. -/
theorem Built.parse_ignores_notes (hg : g.Built) (start : NodeId) (input : String) (options options' : Options) :
    (∀ depth, (g.run depth start (Session.start input options)).EndAlike
      (NotesApart options.trackFurthestFailure options'.trackFurthestFailure)
      (SameMatch options.trackFurthestFailure options'.trackFurthestFailure)
      (g.run depth start (Session.start input options'))) ∧
    (g.matchAt start (Session.start input options)).EndAlike
      (NotesApart options.trackFurthestFailure options'.trackFurthestFailure)
      (SameMatch options.trackFurthestFailure options'.trackFurthestFailure)
      (g.matchAt start (Session.start input options')) ∧
    (g.parse options start input).EndAlike
      (NotesApart options.trackFurthestFailure options'.trackFurthestFailure) (SameOutcome options options')
      (g.parse options' start input) := by
  have hsound := sound_start g input options
  have hapart := notesApart_start input options options'
  have hmatch := matchAt_ignores_notes hg.wellFormed hsound hapart start
  refine ⟨fun depth => run_ignores_notes hg.wellFormed hsound hapart start, hmatch, hmatch.bind ?_⟩
  rintro ⟨m, s⟩ ⟨n, t⟩ ⟨rfl, hst⟩
  refine .done ⟨rfl, hst.cursor_eq, hst.length_eq, ?_, hst.failures⟩
  exact congrArg MemoTable.total hst.memo_eq

/-- The sum `1+2x` is matched as far as its last character, where a failure is noted. With a history in place of
failures there is no such note, and the match is the same. -/
theorem sum_parse_ignores_notes : ∃ o o',
    Reference.expression.build.grammar.parse {} 3 "1+2x" = .done o ∧
    Reference.expression.build.grammar.parse ⟨true, 3, false⟩ 3 "1+2x" = .done o' ∧
      o.furthestFailure? = some 3 ∧ o.history? = none ∧ SameOutcome {} ⟨true, 3, false⟩ o o' ∧
        o'.history?.isSome = true := by
  obtain ⟨o, ho, hfurthest, hhistory⟩ := (by decide +kernel :
    (Reference.expression.build.grammar.parse {} 3 "1+2x").Yields False False
      fun o => o.furthestFailure? = some 3 ∧ o.history? = none).exists_done
  obtain ⟨o', ho', hhistory'⟩ := (by decide +kernel :
    (Reference.expression.build.grammar.parse ⟨true, 3, false⟩ 3 "1+2x").Yields False False
      fun o => o.history?.isSome = true).exists_done
  have hsame := (Built.parse_ignores_notes Reference.expression.built 3 "1+2x" {} ⟨true, 3, false⟩).2.2
  rw [ho, ho'] at hsame
  cases hsame with
  | done h => exact ⟨o, o', ho, ho', hfurthest, hhistory, h, hhistory'⟩

end Grammar

end Packrat
