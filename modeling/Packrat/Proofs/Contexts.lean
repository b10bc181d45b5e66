import Packrat.Proofs.Depth
import Packrat.Proofs.ReferenceGrammars
import Packrat.Proofs.Runs

/-!
# Sessions in use

A session may be used again and again: nodes are matched in it one after the other, the cursor is moved
by hand, and matches are forgotten. In every session that comes out of such use the memo table is
sound, and so each match in it agrees with the input.
-/

namespace Packrat

open Session

/-- The matches of `m` and all matches below it agree with the input between their positions, and lie
side by side. -/
structure Match.AgreesWith (s : Session) (m : Match) : Prop where
  success : ∀ d ∈ m.subtrees, d.success = true
  text_eq : ∀ d ∈ m.subtrees, d.text = s.slice d.start d.stop
  tile : ∀ d ∈ m.subtrees, d.children ≠ [] → Match.Tile d.children d.start d.stop
  text_eq_join : ∀ d ∈ m.subtrees, d.children ≠ [] → d.text = String.join (d.children.map Match.text)

theorem Match.Spells.agreesWith {s : Session} {m : Match} (h : m.Spells s.input) : m.AgreesWith s where
  success d hd := (h d hd).success
  text_eq d hd := (h d hd).text_eq
  tile d hd := (h d hd).tile
  text_eq_join d hd hne := by
    have hchildren : ∀ c ∈ d.children, c.Fits s.input := by
      intro c hc
      exact h c (mem_subtrees_trans m hd (mem_subtrees_of_mem_children hc))
    rw [(h d hd).text_eq, (join_text_of_tile ((h d hd).tile hne) hchildren).1]

/-- What is known of a match and of the session after it: it begins at the cursor, and is an empty failure
that leaves the cursor, or a success that agrees with the input and moves the cursor to its end. -/
inductive Match.Outcome (s : Session) (m : Match) (t : Session) : Prop
  | failure (success : m.success = false) (stop_eq : m.stop = s.cursor) (children : m.children = [])
      (status : m.status = .impossible) (cursor_eq : t.cursor = s.cursor)
  | success (success : m.success = true) (start_le_stop : s.cursor ≤ m.stop) (stop_le : m.stop ≤ s.length)
      (text_eq : m.text = s.slice s.cursor m.stop) (cursor_eq : t.cursor = m.stop) (agrees : m.AgreesWith s)

theorem Session.eq_seek_of_moveTo {s t : Session} {position : Nat} (h : s.moveTo position = .ok t) :
    position ≤ s.length ∧ t = s.seek position := by
  unfold Session.moveTo at h
  split at h
  · rename_i hle
    exact ⟨hle, (Except.ok.inj h).symm⟩
  · nomatch h

theorem Session.eq_seek_of_next {s t : Session} {c : Char} (h : s.next = .ok (c, t)) :
    s.cursor + 1 ≤ s.length ∧ t = s.seek (s.cursor + 1) := by
  unfold Session.next Session.current at h
  cases hpeek : s.peek? with
  | none => simp [hpeek, Except.map] at h
  | some c' =>
    have hlt : s.cursor < s.length := (Array.getElem?_eq_some_iff.1 hpeek).1
    obtain ⟨_, rfl⟩ := by simpa [hpeek, Except.map] using h
    exact ⟨hlt, rfl⟩

theorem Session.get?_of_forget {s : Session} {id r : NodeId} {q : Nat} {e : Match}
    (h : (s.forget id).memo.get? q r = some e) : s.memo.get? q r = some e := by
  rw [Session.forget, MemoTable.get?_erase] at h
  split at h
  · nomatch h
  · exact h

theorem Session.Sound.forget {g : Grammar} {pending : Pending} {s : Session} (hs : s.Sound g pending)
    (id : NodeId) : (s.forget id).Sound g pending where
  cursor_le := hs.cursor_le
  positions_eq := (MemoTable.positions_erase ..).trans hs.positions_eq
  placed he := hs.placed (get?_of_forget he)
  visible he := hs.visible (get?_of_forget he)
  settled he := hs.settled (get?_of_forget he)

namespace Grammar

variable {g : Grammar} {id : NodeId} {s t : Session} {m : Match} {depth : Nat}

/-- The sessions that a client can get to. After a call that gives an error the client goes on with the session as
the call has left it. -/
inductive Reached (g : Grammar) : Session → Prop
  | start (input : String) (options : Options) : Reached g (Session.start input options)
  | matched {s t : Session} {m : Match} {id : NodeId} (hs : Reached g s) (h : g.Matches id s m t) : Reached g t
  | refused {s t : Session} {e : MatchError} {id : NodeId} (hs : Reached g s) (h : g.matchAt id s = .fault e t) :
      Reached g t
  | moved {s t : Session} {position : Nat} (hs : Reached g s) (h : s.moveTo position = .ok t) : Reached g t
  | advanced {s t : Session} {c : Char} (hs : Reached g s) (h : s.next = .ok (c, t)) : Reached g t
  | forgot {s : Session} {id : NodeId} (hs : Reached g s) : Reached g (s.forget id)

theorem sound_start (g : Grammar) (input : String) (options : Options) :
    (Session.start input options).Sound g .none where
  cursor_le := Nat.zero_le _
  positions_eq := by simp [Session.start, Session.length, String.length_toList]
  placed h := by simp [Session.start] at h
  visible h := by simp [Session.start] at h
  settled h := by simp [Session.start] at h

theorem Matches.answered (hg : g.WellFormed) (hs : s.Sound g .none) (h : g.Matches id s m t) :
    id < g.size ∧ Answered g .none (g.Nullable id) s m t := by
  obtain ⟨depth, h⟩ := h
  exact answered_of_run hg hs h

theorem run_ne_fault (hg : g.WellFormed) (hs : s.Sound g .none) (hid : g.contains id = true) (e : MatchError)
    (t : Session) : g.run depth id s ≠ .fault e t := by
  have hrun : (g.run depth id s).Yields False True fun a => Answered g .none (g.Nullable id) s a.1 a.2 :=
    run_answered hg (.inl trivial) (contains_iff.1 hid) hs (.inl trivial)
  exact hrun.ne_fault e t

/-- A call gives an error exactly if the grammar does not have the node, and leaves the session as it was then. -/
theorem matchAt_eq_fault_iff (hg : g.WellFormed) (hs : s.Sound g .none) (e : MatchError) (t : Session) :
    g.matchAt id s = .fault e t ↔ g.contains id = false ∧ e = .unknownNode id ∧ t = s := by
  unfold matchAt
  by_cases hid : g.contains id = true
  · simp [hid, run_ne_fault hg hs hid e t]
  · simp [hid, eq_comm]

theorem Reached.sound (hg : g.WellFormed) (hs : g.Reached s) : s.Sound g .none := by
  induction hs with
  | start input options => exact sound_start g input options
  | matched _ h ih => exact (h.answered hg ih).2.within.sound
  | refused _ h ih =>
    obtain ⟨_, _, rfl⟩ := (matchAt_eq_fault_iff hg ih _ _).1 h
    exact ih
  | moved _ h ih =>
    obtain ⟨hle, rfl⟩ := eq_seek_of_moveTo h
    exact ih.seek hle
  | advanced _ h ih =>
    obtain ⟨hle, rfl⟩ := eq_seek_of_next h
    exact ih.seek hle
  | @forgot s id _ ih => exact ih.forget id

theorem Reached.eq_of_refused {e : MatchError} (hg : g.WellFormed) (hs : g.Reached s)
    (h : g.matchAt id s = .fault e t) : t = s :=
  ((matchAt_eq_fault_iff hg (hs.sound hg) e t).1 h).2.2

theorem outcome_of_answered {null : Prop} (h : Answered g .none null s m t) : Match.Outcome s m t := by
  cases hsuccess : m.success with
  | false =>
    obtain ⟨hstop, _, hchildren⟩ := h.placed.failure hsuccess
    refine .failure hsuccess hstop hchildren ?_ (h.cursor_eq.trans hstop)
    exact (h.failure_status hsuccess).resolve_right fun ⟨_, _, hp⟩ => hp
  | true =>
    have hspells := h.placed.spells hsuccess
    refine .success hsuccess h.placed.start_le_stop h.placed.stop_le ?_ h.cursor_eq hspells.agreesWith
    rw [hspells.fits.text_eq, h.placed.start_eq]
    rfl

/-- In every session in use, a call of a node gives an error exactly if the grammar does not have the node, and
then the session after it is the one before it. Any other call that ends begins its match at the cursor, leaves the
input alone, and either fails there or gives a tree that agrees with the input, with the cursor at its end. -/
theorem Reached.match_agrees_with_input (hg : g.Built) (hs : g.Reached s) (id : NodeId) :
    (∀ e t, g.matchAt id s = .fault e t ↔ g.contains id = false ∧ e = .unknownNode id ∧ t = s) ∧
      (g.contains id = true → ∀ depth e t, g.run depth id s ≠ .fault e t) ∧
      ∀ m t, g.Matches id s m t →
        g.contains id = true ∧ m.start = s.cursor ∧ t.input = s.input ∧ Match.Outcome s m t := by
  have hsound := hs.sound hg.wellFormed
  refine ⟨matchAt_eq_fault_iff hg.wellFormed hsound, fun hid depth => run_ne_fault hg.wellFormed hsound hid, ?_⟩
  intro m t h
  obtain ⟨hid, hanswered⟩ := h.answered hg.wellFormed hsound
  exact ⟨contains_iff.2 hid, hanswered.placed.start_eq, hanswered.within.input_eq, outcome_of_answered hanswered⟩

/-- In a session over `1+2x` that has just been started, the sum is matched up to the last character. A call of a node
that the grammar does not have changes nothing about the session that this leaves. -/
theorem sum_agrees_with_input : ∃ m t,
    Reference.expression.build.grammar.Matches 3 (Session.start "1+2x" {}) m t ∧ m.success = true ∧
      t.cursor = 3 ∧ m.start = 0 ∧ Match.Outcome (Session.start "1+2x" {}) m t ∧
      Reference.expression.build.grammar.matchAt 7 t = .fault (.unknownNode 7) t := by
  obtain ⟨m, t, hmatches, hsuccess, hcursor⟩ := exists_matches (by decide +kernel :
    (Reference.expression.build.grammar.matchAt 3 (Session.start "1+2x" {})).Yields False False
      fun a => a.1.success = true ∧ a.2.cursor = 3)
  obtain ⟨_, hstart, _, houtcome⟩ := (Reached.match_agrees_with_input Reference.expression.built
    (.start "1+2x" {}) 3).2.2 m t hmatches
  have hrefused : Reference.expression.build.grammar.matchAt 7 t = .fault (.unknownNode 7) t :=
    ((Reached.match_agrees_with_input Reference.expression.built (.matched (.start "1+2x" {}) hmatches) 7).1 _ _).2
      ⟨by decide, rfl, rfl⟩
  exact ⟨m, t, hmatches, hsuccess, hcursor, hstart, houtcome, hrefused⟩

end Grammar

end Packrat
