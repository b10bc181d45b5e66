import Packrat.Proofs.Ending
import Packrat.Proofs.Holding
import Packrat.Proofs.Keeping

/-!
# Entries of the memo table are frozen

A call writes only the entries of calls that it leads to, and loses none. Between two calls no rule is being
evaluated, so that each entry is final: it stays as it is, whatever else is matched in the session. Hence a
match can be replayed, and finds everything that it has put into the table.
-/

namespace Packrat

open Session

namespace Grammar

variable {g : Grammar} {pending : Pending} {id : NodeId} {depth : Nat} {s t u : Session} {m : Match}

/-- A call leaves alone all entries of calls that it does not lead to. -/
theorem run_frame (hg : g.WellFormed) (hs : s.Sound g pending) {q : Nat} {r : NodeId}
    (hleads : ¬ g.Leads s.cursor id q r) (h : g.run depth id s = .done (m, t)) :
    t.memo.get? q r = s.memo.get? q r := by
  induction depth generalizing pending id s m t with
  | zero => nomatch h
  | succ depth ih =>
    have hid := (answered_of_run hg hs h).1
    obtain ⟨node, hnode⟩ := exists_node hid
    have hother : ¬ (q = s.cursor ∧ r = id) := by
      rintro ⟨rfl, rfl⟩
      exact hleads (.refl g _ _)
    have htable : OfTable fun u => u.memo.get? q r = s.memo.get? q r := by
      intro v w hv _ hmemo _
      rw [hmemo]
      exact hv
    have heval : ∀ pending u n v, u.Sound g pending → u.cursor = s.cursor → u.memo.get? q r = s.memo.get? q r →
        node.eval (g.run depth) u = .done (n, v) → v.memo.get? q r = s.memo.get? q r := by
      intro pending u n v hu hcursor hinit hv
      apply eval_keeps hg htable hnode hu _ hinit hv
      intro c w k w' hw hleft hkept hrun
      have hto : g.Leads s.cursor id w.cursor c := hcursor ▸ leads_of_within hw hleft
      exact (ih hw.sound (fun hl => hleads (hto.trans hl)) hrun).trans hkept
    by_cases hvisible : g.isVisible id = true
    · cases hmemo : s.memo.get? s.cursor id with
      | some memo =>
        obtain ⟨t', ht', _, _, hwritten⟩ := run_of_remembered depth hvisible hmemo (hs.placed hmemo)
        obtain ⟨_, rfl⟩ := Prod.mk.inj (Run.done.inj (h.symm.trans ht'))
        rw [hwritten]
        split
        · exact MemoTable.get?_insert_of_ne hother
        · rfl
      | none =>
        have hhidden := (isVisible_iff hnode).1 hvisible
        obtain ⟨s', hs', hfirst⟩ := run_of_not_remembered depth hnode hhidden hmemo
        rw [hfirst] at h
        have hbegin : (s'.remember s'.cursor id (.placeholder s'.cursor)).memo.get? q r = s.memo.get? q r := by
          rw [memo_remember, hs'.memo_eq, hs'.cursor_eq]
          exact MemoTable.get?_insert_of_ne hother
        apply answerFirst_keeps hg htable hnode hvisible (hs.alike hs') hbegin _ h
        intro u n v hu hcursor hinit hv
        have hkept := heval _ u n v hu (hcursor.trans hs'.cursor_eq) hinit hv
        refine ⟨hkept, fun status => ?_⟩
        dsimp only
        rw [memo_remember, hs'.cursor_eq, MemoTable.get?_insert_of_ne hother]
        exact hkept
    · have hhidden := (not_visible_iff hnode).1 hvisible
      rw [run_of_hidden hnode hhidden] at h
      exact heval pending s m t hs rfl rfl h

/-- Sessions that are come to from `s` by more calls, some of which may give an error, and by moving the cursor. -/
inductive Onward (g : Grammar) (s : Session) : Session → Prop
  | refl : Onward g s s
  | matched {t u : Session} {m : Match} {id : NodeId} (ht : Onward g s t) (h : g.Matches id t m u) : Onward g s u
  | refused {t u : Session} {e : MatchError} {id : NodeId} (ht : Onward g s t) (h : g.matchAt id t = .fault e u) :
      Onward g s u
  | moved {t u : Session} {position : Nat} (ht : Onward g s t) (h : t.moveTo position = .ok u) : Onward g s u

theorem Onward.reached (hs : g.Reached s) (h : g.Onward s t) : g.Reached t := by
  induction h with
  | refl => exact hs
  | matched _ h ih => exact .matched ih h
  | refused _ h ih => exact .refused ih h
  | moved _ h ih => exact .moved ih h

theorem Matches.within (hg : g.WellFormed) (hs : g.Reached s) (h : g.Matches id s m t) : s.Within g .none t :=
  (h.answered hg (hs.sound hg)).2.within

theorem Onward.kept (hg : g.WellFormed) (hs : g.Reached s) (h : g.Onward s t) :
    t.input = s.input ∧ s.memo.Kept t.memo := by
  induction h with
  | refl => exact ⟨rfl, .refl _⟩
  | matched ht h ih =>
    have hwithin := h.within hg (ht.reached hs)
    exact ⟨hwithin.input_eq.trans ih.1, ih.2.trans hwithin.kept⟩
  | refused ht h ih =>
    obtain rfl := (ht.reached hs).eq_of_refused hg h
    exact ih
  | moved ht h ih =>
    obtain ⟨_, rfl⟩ := eq_seek_of_moveTo h
    exact ih

/-- A match that has been made is found again wherever the table has what it left there. -/
theorem Matches.replay (hg : g.WellFormed) (hs : s.Sound g .none) (h : g.Matches id s m t) (hinput : u.input = s.input)
    (hcursor : u.cursor = s.cursor) (hkept : t.memo.Kept u.memo) :
    ∃ v, g.Matches id u m v ∧ v.input = t.input ∧ v.cursor = t.cursor ∧ v.memo = u.memo := by
  obtain ⟨depth, h⟩ := h
  have hagain : Session.Again g .none u.memo s u := ⟨hs, hinput.symm, hcursor.symm, rfl⟩
  have hreplay := (run_replays hg (fun _ _ _ _ _ _ => trivial) u.memo trivial s m t h).2 u hagain
    (hkept.finalIn fun _ => True)
  obtain ⟨⟨m', v⟩, hv, rfl, htv⟩ := hreplay.exists_done
  exact ⟨v, ⟨depth, hv⟩, htv.input_eq.symm, htv.cursor_eq.symm, htv.memo_eq⟩

theorem Matches.again (hg : g.WellFormed) (hs : g.Reached s) (h : g.Matches id s m t) (hu : g.Onward t u)
    (hcursor : u.cursor = s.cursor) : ∃ v, g.Matches id u m v ∧ v.cursor = t.cursor ∧ v.memo = u.memo := by
  obtain ⟨hinput, hkept⟩ := hu.kept hg (.matched hs h)
  obtain ⟨v, hv, _, hrest⟩ :=
    h.replay hg (hs.sound hg) (hinput.trans (h.within hg hs).input_eq) hcursor hkept
  exact ⟨v, hv, hrest⟩

/-- A match in a session in use leaves every entry of the memo table exactly as it was, and adds entries only at
the cursor and after it. After any number of further matches and moves, the match of the same node at the same
position ends again, with the same match and with the cursor at the same place, and writes nothing. -/
theorem Reached.match_is_frozen (hg : g.Built) (hs : g.Reached s) (h : g.Matches id s m t) :
    (∀ q r e, s.memo.get? q r = some e → t.memo.get? q r = some e) ∧
      (∀ q r e, t.memo.get? q r = some e → s.memo.get? q r = none → s.cursor ≤ q) ∧
      ∀ u, g.Onward t u → u.cursor = s.cursor →
        (∃ v, g.Matches id u m v) ∧
          ∀ n v, g.Matches id u n v → n = m ∧ v.cursor = t.cursor ∧ v.memo = u.memo := by
  have hsound := hs.sound hg.wellFormed
  have hwithin := h.within hg.wellFormed hs
  refine ⟨?_, ?_, ?_⟩
  · intro q r e he
    exact hwithin.kept.get? he (hsound.settled he fun hp => hp).status_ne
  · intro q r e he hnone
    obtain ⟨depth, h⟩ := h
    by_contra hlt
    have hbefore : ¬ g.Leads s.cursor id q r := by
      rintro (hafter | ⟨rfl, _⟩)
      · omega
      · omega
    rw [run_frame hg.wellFormed hsound hbefore h, hnone] at he
    nomatch he
  · intro u hu hcursor
    obtain ⟨v, hv, hvcursor, hvmemo⟩ := h.again hg.wellFormed hs hu hcursor
    refine ⟨⟨v, hv⟩, fun n w hw => ?_⟩
    obtain ⟨rfl, rfl⟩ := hw.unique hv
    exact ⟨rfl, hvcursor, hvmemo⟩

/-- The sum `1+2` is matched, then a number is looked for at the end, and then the sum is matched again. -/
theorem sum_match_is_frozen : ∃ m t u v,
    Reference.expression.build.grammar.Matches 3 (Session.start "1+2" {}) m t ∧ m.success = true ∧
      Reference.expression.build.grammar.Onward t u ∧
      Reference.expression.build.grammar.Matches 3 u m v ∧ v.cursor = t.cursor ∧ v.memo = u.memo := by
  obtain ⟨m, t, h, hsuccess⟩ := exists_matches (by decide +kernel :
    (Reference.expression.build.grammar.matchAt 3 (Session.start "1+2" {})).Yields False False
      fun a => a.1.success = true)
  have hreached := Reached.matched (.start "1+2" {}) h
  have hid : 2 < Reference.expression.build.grammar.size := by decide
  obtain ⟨n, w, hrun⟩ := run_ends Reference.expression.built.wellFormed Reference.expression.noHiddenCycle
    (hreached.sound Reference.expression.built.wellFormed) hid
  have hnumber : Reference.expression.build.grammar.Matches 2 t n w := ⟨_, hrun _ (Nat.le_refl _)⟩
  have honward : Reference.expression.build.grammar.Onward t (w.seek 0) :=
    .moved (.matched .refl hnumber) (moveTo_of_le (Nat.zero_le _))
  obtain ⟨⟨v, hv⟩, hagain⟩ := (Reached.match_is_frozen Reference.expression.built (.start "1+2" {}) h).2.2
    (w.seek 0) honward rfl
  obtain ⟨_, hcursor, hmemo⟩ := hagain m v hv
  exact ⟨m, t, w.seek 0, v, h, hsuccess, honward, hv, hcursor, hmemo⟩

end Grammar

end Packrat
