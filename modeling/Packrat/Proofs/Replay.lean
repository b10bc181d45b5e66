import Packrat.Proofs.CallSteps
import Packrat.Proofs.Depth
import Packrat.Proofs.Runs

/-!
# Replaying a call

No call loses an entry of the memo table. So if a call is made again at the same position, with a table
that still has the entries of the first time, every rule that is called in it is found, and the call gives
the same match without writing anything. This holds even where the first call was made inside of rules that
are still pending, as long as it does not reach any of them.
-/

namespace Packrat

open Session

theorem MemoTable.lt_positions_of_get? {t : MemoTable} {position : Nat} {id : NodeId} {m : Match}
    (h : t.get? position id = some m) : position < t.positions := by
  by_contra hge
  have hrow : t.row position = [] := by
    simp only [MemoTable.row, Array.getElem?_eq_none (Nat.not_lt.1 hge), Option.getD_none]
  rw [MemoTable.get?, hrow] at h
  nomatch h

/-- What `t` has of nodes in `known`, and is final, `u` has as well. -/
def MemoTable.FinalIn (known : NodeId → Prop) (t u : MemoTable) : Prop :=
  ∀ position id m, known id → t.get? position id = some m → m.status ≠ .possible → u.get? position id = some m

theorem MemoTable.Kept.finalIn {t u : MemoTable} (h : t.Kept u) (known : NodeId → Prop) : t.FinalIn known u :=
  fun _ _ _ _ hm hstatus => h.get? hm hstatus

theorem MemoTable.FinalIn.kept {known : NodeId → Prop} {t u v : MemoTable} (h : t.FinalIn known u)
    (huv : u.Kept v) : t.FinalIn known v :=
  fun position id m hid hm hstatus => huv.get? (h position id m hid hm hstatus) hstatus

theorem MemoTable.FinalIn.of_kept {known : NodeId → Prop} {t u v : MemoTable} (h : u.FinalIn known v)
    (htu : t.Kept u) : t.FinalIn known v :=
  fun position id m hid hm hstatus => h position id m hid (htu.get? hm hstatus) hstatus

theorem MemoTable.FinalIn.insert {known : NodeId → Prop} {t u : MemoTable} {id : NodeId}
    (h : t.FinalIn known u) (hid : ¬ known id) (position : Nat) (m : Match) :
    t.FinalIn known (u.insert position id m) := by
  intro q r e hr he hstatus
  have hne : ¬ (q = position ∧ r = id) := by
    rintro ⟨_, rfl⟩
    exact hid hr
  rw [MemoTable.get?_insert_of_ne hne]
  exact h q r e hr he hstatus

def KeepsMemo (x : Session → Answer) : Prop := ∀ s m t, x s = .done (m, t) → s.memo.Kept t.memo

/-- To lose no entry is to arrive at a table that lacks one only from such a table. -/
theorem keepsMemo_iff {x : Session → Answer} :
    KeepsMemo x ↔ ∀ table : MemoTable, Follows (fun _ _ => False) (fun t => ¬ table.Kept t) False Eq x x := by
  constructor
  · intro h table s m t hx
    exact ⟨fun ht hs => ht (hs.trans (h s m t hx)), fun _ hf => hf.elim⟩
  · intro h s m t hx
    by_contra hlost
    exact (h s.memo s m t hx).1 hlost (.refl _)

theorem Session.Congruence.false : Session.Congruence fun _ _ => False :=
  ⟨False.elim, False.elim, fun _ => False.elim, fun _ _ _ _ => False.elim, fun _ => False.elim, fun h => h.elim⟩

theorem Pattern.matchAlternatives_keepsMemo {call : Evaluator} (start : Nat) {alternatives : List NodeId}
    (hcall : ∀ c ∈ alternatives, KeepsMemo (call c)) : KeepsMemo (matchAlternatives call start alternatives) :=
  keepsMemo_iff.2 fun table => matchAlternatives_follows .false .eq start
    fun c hc => keepsMemo_iff.1 (hcall c hc) table

namespace Node

variable {call : Evaluator} {node : Node} {id : NodeId} {s t : Session} {m : Match}

theorem eval_keepsMemo (hcall : ∀ c ∈ node.pattern.components, KeepsMemo (call c)) :
    KeepsMemo (node.eval call) :=
  keepsMemo_iff.2 fun table => Node.eval_follows .false .eq node fun c hc => keepsMemo_iff.1 (hcall c hc) table

theorem growRounds_kept (heval : KeepsMemo (node.eval call)) {table : MemoTable} {initial rounds iteration n : Nat}
    {committed : Match} (hnone : table.get? initial id = none) (hs : table.Kept s.memo)
    (h : growRounds call node id initial rounds iteration committed s = .done (n, m, t)) :
    table.Kept t.memo := by
  induction rounds generalizing iteration committed s with
  | zero => nomatch h
  | succ rounds ih =>
    obtain ⟨u, attempt, v, hu, _, hattempt, hcase⟩ := growRounds_cases h
    have hv : table.Kept v.memo := by
      refine hs.trans ?_
      simpa [hu.memo_eq] using heval _ _ _ hattempt
    rcases hcase with ⟨_, _, _, ht⟩ | ⟨_, _, w, hw, h⟩
    · rwa [ht.memo_eq]
    · refine ih ?_ h
      rw [hw.memo_eq]
      exact hv.insert hnone

theorem answerFromMemo_keepsMemo {memo : Match} (hmemo : s.remembered? id = some memo)
    (h : node.answerFromMemo id memo s = .done (m, t)) : s.memo.Kept t.memo := by
  rcases (answerFromMemo_cases h).2 with ⟨hpossible, rfl, ht⟩ | ⟨_, rfl, ht⟩
  · rw [ht.memo_eq]
    exact .mark hmemo hpossible (MemoTable.lt_positions_of_get? hmemo)
  · rw [ht.memo_eq]
    exact .refl _

theorem answerFirst_keepsMemo (heval : KeepsMemo (node.eval call)) (hnone : s.remembered? id = none)
    (h : node.answerFirst call id s = .done (m, t)) : s.memo.Kept t.memo := by
  obtain ⟨first, u, hfirst, hcase⟩ := answerFirst_cases h
  have hu : s.memo.Kept u.memo := ((MemoTable.Kept.refl s.memo).insert hnone).trans (heval _ _ _ hfirst)
  rcases hcase with ⟨_, _, v, k, w, hv, hgrow, _, ht⟩ | ⟨_, _, ht⟩
  · rw [ht.memo_eq, memo_seek]
    refine growRounds_kept heval hnone ?_ hgrow
    rw [hv.memo_eq]
    exact hu.insert hnone
  · rw [ht.memo_eq]
    exact hu.insert hnone

/-! The match of a rule is what its entry holds when the call is over. -/

theorem growRounds_remembered (heval : KeepsMemo (node.eval call)) {initial rounds iteration n : Nat}
    {committed : Match} (hentry : s.memo.get? initial id = some committed) (hstatus : committed.status ≠ .possible)
    (h : growRounds call node id initial rounds iteration committed s = .done (n, m, t)) :
    t.memo.get? initial id = some m ∧ m.status ≠ .possible := by
  induction rounds generalizing iteration committed s with
  | zero => nomatch h
  | succ rounds ih =>
    obtain ⟨u, attempt, v, hu, _, hattempt, hcase⟩ := growRounds_cases h
    have hentry' : v.memo.get? initial id = some committed :=
      (heval _ _ _ hattempt).get? (by simpa [hu.memo_eq] using hentry) hstatus
    rcases hcase with ⟨_, _, rfl, ht⟩ | ⟨_, _, w, hw, h⟩
    · rw [ht.memo_eq]
      exact ⟨hentry', hstatus⟩
    · refine ih ?_ ?_ h
      · rw [hw.memo_eq]
        exact MemoTable.get?_insert_self (MemoTable.lt_positions_of_get? hentry')
      · simp

theorem answerFromMemo_remembered {memo : Match} (hmemo : s.remembered? id = some memo)
    (h : node.answerFromMemo id memo s = .done (m, t)) :
    t.memo.get? s.cursor id = some m ∧ m.status ≠ .possible := by
  rcases (answerFromMemo_cases h).2 with ⟨_, rfl, ht⟩ | ⟨hstatus, rfl, ht⟩
  · rw [ht.memo_eq]
    exact ⟨MemoTable.get?_insert_self (MemoTable.lt_positions_of_get? hmemo), by simp ⟩
  · rw [ht.memo_eq]
    exact ⟨hmemo, hstatus⟩

theorem answerFirst_remembered (heval : KeepsMemo (node.eval call)) (hs : s.cursor < s.memo.positions)
    (h : node.answerFirst call id s = .done (m, t)) :
    t.memo.get? s.cursor id = some m ∧ m.status ≠ .possible := by
  obtain ⟨first, u, hfirst, hcase⟩ := answerFirst_cases h
  have hplaceholder : ((s.remember s.cursor id (.placeholder s.cursor)).memo.get? s.cursor id).isSome := by
    rw [memo_remember, MemoTable.get?_insert_self hs]
    rfl
  obtain ⟨entry, hentry⟩ := Option.isSome_iff_exists.1 ((heval _ _ _ hfirst).isSome hplaceholder)
  have hpos := MemoTable.lt_positions_of_get? hentry
  rcases hcase with ⟨_, _, v, k, w, hv, hgrow, _, ht⟩ | ⟨_, rfl, ht⟩
  · rw [ht.memo_eq, memo_seek]
    refine growRounds_remembered heval ?_ ?_ hgrow
    · rw [hv.memo_eq]
      exact MemoTable.get?_insert_self hpos
    · simp
  · rw [ht.memo_eq]
    exact ⟨MemoTable.get?_insert_self hpos, by simp ⟩

end Node

namespace Grammar

variable {g : Grammar} {pending : Pending} {id : NodeId} {depth : Nat} {s t : Session} {m : Match}

theorem run_keepsMemo (g : Grammar) (depth : Nat) (id : NodeId) : KeepsMemo (g.run depth id) := by
  induction depth generalizing id with
  | zero => exact fun s m t h => nomatch h
  | succ depth ih =>
    intro s m t h
    rw [run, answer] at h
    cases hnode : g.node? id with
    | none => simp [hnode] at h
    | some node =>
      have heval : KeepsMemo (node.eval (g.run depth)) := Node.eval_keepsMemo fun c _ => ih c
      rw [hnode] at h
      dsimp only at h
      split at h
      · exact heval s m t h
      · split at h
        · rename_i memo hmemo
          simpa using Node.answerFromMemo_keepsMemo hmemo h
        · rename_i hnone
          simpa using Node.answerFirst_keepsMemo heval hnone h

/-- A rule that is found in the table gives what is found, after a mark if it is still being evaluated. -/
theorem run_of_remembered {null : Prop} {memo : Match} (depth : Nat) (hvisible : g.isVisible id = true)
    (hmemo : s.remembered? id = some memo) (hplaced : memo.Placed s.input s.cursor null) :
    ∃ t, g.run (depth + 1) id s =
        .done (if memo.status = .possible then memo.withStatus .detected else memo, t) ∧
      t.input = s.input ∧ t.cursor = memo.stop ∧
      t.memo = if memo.status = .possible then s.memo.insert s.cursor id (memo.withStatus .detected)
        else s.memo := by
  obtain ⟨node, hnode⟩ := exists_node_of_visible hvisible
  have hhidden := (isVisible_iff hnode).1 hvisible
  rw [run, answer_of_remembered hnode hhidden hmemo, Node.answerFromMemo_eq (by simpa using hplaced)]
  split
  · exact ⟨_, rfl, by simp, by simp, by simp⟩
  · exact ⟨_, rfl, by simp, by simp, by simp⟩

/-- The match of a rule is in the table when the call is over. -/
theorem run_remembered (hvisible : g.isVisible id = true) (hs : s.cursor < s.memo.positions)
    (h : g.run depth id s = .done (m, t)) :
    t.memo.get? s.cursor id = some m ∧ m.status ≠ .possible := by
  cases depth with
  | zero => nomatch h
  | succ depth =>
    rw [run, answer] at h
    cases hnode : g.node? id with
    | none => simp [hnode] at h
    | some node =>
      have hhidden := (isVisible_iff hnode).1 hvisible
      have heval : KeepsMemo (node.eval (g.run depth)) := Node.eval_keepsMemo fun c _ => g.run_keepsMemo depth c
      rw [hnode] at h
      dsimp only at h
      rw [if_neg (by simp [hhidden])] at h
      split at h
      · rename_i memo hmemo
        simpa using Node.answerFromMemo_remembered hmemo h
      · simpa using Node.answerFirst_remembered heval (by simpa using hs) h

end Grammar

/-- The session `t` stands where `s` stood, with the table `table`. -/
structure Session.Again (g : Grammar) (pending : Pending) (table : MemoTable) (s t : Session) : Prop where
  sound : s.Sound g pending
  input_eq : s.input = t.input
  cursor_eq : s.cursor = t.cursor
  memo_eq : t.memo = table

theorem Session.Again.congruence (g : Grammar) (pending : Pending) (table : MemoTable) :
    Session.Congruence (Session.Again g pending table) where
  input_eq h := h.input_eq
  cursor_eq h := h.cursor_eq
  seek hle h := ⟨h.sound.seek hle, h.input_eq, rfl, h.memo_eq⟩
  emit _ _ _ _ h := {
    sound := h.sound.alike (alike_emit ..)
    input_eq := by simpa using h.input_eq
    cursor_eq := by simpa using h.cursor_eq
    memo_eq := by simpa using h.memo_eq }
  noteFailure _ h := ⟨h.sound.alike ⟨rfl, rfl, rfl⟩, h.input_eq, h.cursor_eq, h.memo_eq⟩
  restoreFailure h _ := ⟨h.sound.alike ⟨rfl, rfl, rfl⟩, h.input_eq, h.cursor_eq, h.memo_eq⟩

namespace Grammar

variable {g : Grammar} {pending : Pending} {id : NodeId} {depth : Nat} {s t : Session} {m : Match}

/-- A call that is made again, with a table that has what the first call left there, gives the same match,
and leaves the table as it is. -/
theorem run_replays (hg : g.WellFormed) {known : NodeId → Prop}
    (hclosed : ∀ id node, known id → g.node? id = some node → ∀ c ∈ node.pattern.components, known c)
    (table : MemoTable) (hid : known id) :
    Follows (Session.Again g pending table) (fun u => u.FinalIn known table) False Eq (g.run depth id)
      (g.run depth id) := by
  induction depth generalizing id with
  | zero => exact fun s m t h => nomatch h
  | succ depth ih =>
    intro s m s' h
    refine ⟨fun hF => hF.of_kept (g.run_keepsMemo _ _ _ _ _ h), fun t hst hF => ?_⟩
    obtain ⟨hsize, hanswered⟩ := answered_of_run hg hst.sound h
    obtain ⟨node, hnode⟩ := exists_node hsize
    by_cases hvisible : g.isVisible id = true
    · obtain ⟨hentry, hstatus⟩ := run_remembered hvisible hst.sound.cursor_lt h
      have hfound : t.remembered? id = some m := by
        rw [remembered?, hst.memo_eq, ← hst.cursor_eq]
        exact hF _ _ _ hid hentry hstatus
      have hplaced : m.Placed t.input t.cursor (g.Nullable id) := by
        rw [← hst.input_eq, ← hst.cursor_eq]
        exact hanswered.placed
      obtain ⟨t', ht, hinput, hcursor, hmemo⟩ := run_of_remembered depth hvisible hfound hplaced
      rw [if_neg hstatus] at ht hmemo
      rw [ht]
      refine ⟨rfl, hanswered.within.sound, ?_, ?_, ?_⟩
      · rw [hanswered.within.input_eq, hst.input_eq, hinput]
      · rw [hanswered.cursor_eq, hcursor]
      · rw [hmemo, hst.memo_eq]
    · have hhidden := (not_visible_iff hnode).1 hvisible
      have hfollow := Node.eval_follows (Session.Again.congruence g pending table) .eq node
        fun c hc => ih (hclosed id node hid hnode c hc)
      rw [run_of_hidden hnode hhidden] at h ⊢
      exact (hfollow s m s' h).2 t hst hF

end Grammar

end Packrat
