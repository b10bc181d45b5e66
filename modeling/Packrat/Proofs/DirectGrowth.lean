import Packrat.Proofs.Calls
import Packrat.Proofs.Replay

/-!
# Growth without direct recursion

The second trial of a rule finds in the memo table whatever was called in the first one, with the match that it
had at its end. Only the entry of the rule itself is another. But a rule that does not reach itself through hidden
nodes alone never looks this entry up: some other rule stands in between, and that one is found. So the second
trial gives the match of the first, which is not longer than the seed, and the growth is over.
-/

namespace Packrat

open Session Pattern

/-- What `t` has, and is final, `u` has as well, the entry of `id` at `position` aside. -/
def MemoTable.FinalBeside (position : Nat) (id : NodeId) (t u : MemoTable) : Prop :=
  ∀ q r m, ¬ (q = position ∧ r = id) → t.get? q r = some m → m.status ≠ .possible → u.get? q r = some m

theorem MemoTable.FinalBeside.of_kept {position : Nat} {id : NodeId} {t u v : MemoTable}
    (h : u.FinalBeside position id v) (htu : t.Kept u) : t.FinalBeside position id v :=
  fun q r m hne hm hstatus => h q r m hne (htu.get? hm hstatus) hstatus

theorem MemoTable.finalBeside_insert (t : MemoTable) (position : Nat) (id : NodeId) (m : Match) :
    t.FinalBeside position id (t.insert position id m) :=
  fun _ _ _ hne he _ => (get?_insert_of_ne hne).trans he

namespace Grammar

variable {g : Grammar} {pending : Pending} {position depth : Nat} {id c : NodeId} {node : Node} {table : MemoTable}
  {s t w : Session} {m : Match}

theorem CallsDirectly.of_leftEdge (h : g.LeftEdge id c) : g.CallsDirectly id c := ⟨c, h, .refl⟩

/-- The way goes on through hidden nodes. -/
theorem CallsDirectly.tail {d : NodeId} (h : g.CallsDirectly id c) (hhidden : g.isVisible c ≠ true)
    (hedge : g.LeftEdge c d) : g.CallsDirectly id d := by
  obtain ⟨first, hfirst, hpath⟩ := h
  exact ⟨first, hfirst, hpath.tail ⟨hedge, fun _ => hhidden⟩⟩

/-- A call that comes from a trial of `id` at `position`, and there by way of hidden nodes only, gives the same
when it is made again with a table that has what the call has left, the entry of `id` at `position` aside. -/
def ReplaysBeside (g : Grammar) (pending : Pending) (position : Nat) (id : NodeId) (table : MemoTable)
    (depth : Nat) : Prop :=
  ∀ c s m s', s.Sound g pending → position ≤ s.cursor → (s.cursor = position → g.CallsDirectly id c) →
    g.run depth c s = .done (m, s') → s'.memo.FinalBeside position id table →
      ∀ t, Session.Again g pending table s t →
        (g.run depth c t).Yields False False fun b => m = b.1 ∧ Session.Again g pending table s' b.2

theorem eval_replays_beside (hg : g.WellFormed) (hrun : g.ReplaysBeside pending position id table depth)
    (hnode : g.node? c = some node) (hs : s.Sound g pending) (hle : position ≤ s.cursor)
    (hdirect : s.cursor = position → ∀ d, g.LeftEdge c d → g.CallsDirectly id d)
    (h : node.eval (g.run depth) s = .done (m, w)) (hw : w.memo.FinalBeside position id table)
    (ht : Session.Again g pending table s t) :
    (node.eval (g.run depth) t).Yields False False fun b => m = b.1 ∧ Session.Again g pending table w b.2 := by
  have hconfined := Node.eval_confined hnode hs (run_answersInside hg hnode depth s) h
  refine (Node.eval_follows (F := fun u => u.FinalBeside position id table) (Session.Again.congruence g pending table)
    .eq node ?_ s m w hconfined).2 t ht hw
  intro d _ u n v hu
  obtain ⟨hcan, hu⟩ := confined_eq_done hu
  refine ⟨fun hv => hv.of_kept (g.run_keepsMemo _ _ _ _ _ hu), fun t' ht' hv => ?_⟩
  refine hrun d u n v hcan.1.sound (Nat.le_trans hle hcan.1.cursor_le) (fun hcursor => ?_) hu hv t' ht'
  have hstart : s.cursor = position := Nat.le_antisymm (hcursor ▸ hcan.1.cursor_le) hle
  exact hdirect hstart d (hcan.2 (hcursor.trans hstart.symm))

/-- Rules are found, and the one that has another entry now is not called; hidden nodes make their calls again. -/
theorem run_replays_beside (hg : g.WellFormed) (hnot : ¬ g.CallsDirectly id id) (pending : Pending)
    (position : Nat) (table : MemoTable) (depth : Nat) : g.ReplaysBeside pending position id table depth := by
  induction depth with
  | zero => exact fun c s m s' _ _ _ h => nomatch h
  | succ depth ih =>
    intro c s m s' hs hle hdirect h hfinal t ht
    obtain ⟨hsize, hanswered⟩ := answered_of_run hg hs h
    obtain ⟨node, hnode⟩ := exists_node hsize
    by_cases hvisible : g.isVisible c = true
    · have hne : ¬ (s.cursor = position ∧ c = id) := by
        rintro ⟨hcursor, rfl⟩
        exact hnot (hdirect hcursor)
      obtain ⟨hentry, hstatus⟩ := run_remembered hvisible hs.cursor_lt h
      have hfound : t.remembered? c = some m := by
        rw [remembered?, ht.memo_eq, ← ht.cursor_eq]
        exact hfinal _ _ _ hne hentry hstatus
      have hplaced : m.Placed t.input t.cursor (g.Nullable c) := by
        rw [← ht.input_eq, ← ht.cursor_eq]
        exact hanswered.placed
      obtain ⟨t', ht', hinput, hcursor, hmemo⟩ := run_of_remembered depth hvisible hfound hplaced
      rw [if_neg hstatus] at ht' hmemo
      rw [ht']
      refine ⟨rfl, hanswered.within.sound, ?_, ?_, ?_⟩
      · rw [hanswered.within.input_eq, ht.input_eq, hinput]
      · rw [hanswered.cursor_eq, hcursor]
      · rw [hmemo, ht.memo_eq]
    · rw [run_of_hidden hnode ((not_visible_iff hnode).1 hvisible)] at h ⊢
      exact eval_replays_beside hg ih hnode hs hle (fun hcursor d => (hdirect hcursor).tail hvisible) h hfinal ht

/-- With whatever match the rule has got in the table after its first trial, the second one gives the same. -/
theorem trial_replays (hg : g.WellFormed) (hnot : ¬ g.CallsDirectly id id) (hnode : g.node? id = some node)
    (hs : s.Sound g pending) (h : node.eval (g.run depth) s = .done (m, w)) (hinput : t.input = s.input)
    (hcursor : t.cursor = s.cursor) {seed : Match} (hmemo : t.memo = w.memo.insert s.cursor id seed) :
    ∃ v, node.eval (g.run depth) t = .done (m, v) ∧ v.Alike (t.seek w.cursor) := by
  have hreplay := run_replays_beside hg hnot pending s.cursor t.memo depth
  have hyields := eval_replays_beside hg hreplay hnode hs (Nat.le_refl _) (fun _ d => .of_leftEdge) h
    (hmemo ▸ w.memo.finalBeside_insert s.cursor id seed) ⟨hs, hinput.symm, hcursor.symm, rfl⟩
  obtain ⟨⟨_, v⟩, hv, rfl, hagain⟩ := hyields.exists_done
  have hwithin := (answered_of_eval hg hnode hs h).within
  exact ⟨v, hv, hagain.input_eq.symm.trans (hwithin.input_eq.trans hinput.symm), hagain.cursor_eq.symm,
    hagain.memo_eq⟩

/-- The call of `id` in `s` finds nothing in the table, and the first trial gives a match and marks the rule:
`seed` is this match, and `t` the session in which it begins to grow. -/
structure BeginsToGrow (g : Grammar) (depth : Nat) (node : Node) (id : NodeId) (s : Session) (seed : Match)
    (t : Session) : Prop where
  node_eq : g.node? id = some node
  visible : node.hidden = false
  absent : s.remembered? id = none
  trial : ∃ first u,
    node.eval (g.run depth) ((s.emit .memoCheck node.label s.cursor s.cursor).remember s.cursor id
      (.placeholder s.cursor)) = .done (first, u) ∧
    ((u.memo.get? s.cursor id).map Match.status).getD .possible = .detected ∧ first.success = true ∧
    seed = first.withStatus .detected ∧
    t = (u.save s.cursor id node.label seed).emit .beginGrow node.label seed.start seed.stop

theorem BeginsToGrow.run_eq {seed : Match} (h : g.BeginsToGrow depth node id s seed t) :
    g.run (depth + 1) id s = node.grow (g.run depth) id s.cursor seed t := by
  obtain ⟨first, u, hfirst, hmark, hsuccess, rfl, rfl⟩ := h.trial
  rw [run, answer_of_absent h.node_eq h.visible h.absent, Node.answerFirst]
  simp only [cursor_emit] at hmark ⊢
  rw [hfirst, Run.done_bind]
  simp [hmark, hsuccess]

/-- The growth of a rule that does not reach itself through hidden nodes alone ends with its first attempt, which
is as long as the seed. -/
theorem growRounds_of_not_direct (hg : g.WellFormed) (hnot : ¬ g.CallsDirectly id id)
    (hnode : g.node? id = some node) (hs : s.Sound g pending) (hcursor : s.cursor = position)
    (h : node.eval (g.run depth) s = .done (m, w)) (hsuccess : m.success = true) {seed : Match}
    (hseed : seed = m.withStatus .detected) (ht : t.Alike (w.remember position id seed)) (rounds : Nat) :
    ∃ attempt v, node.eval (g.run depth) ((t.emit (.growAttempt 1) node.label position seed.stop).seek position) =
        .done (attempt, v) ∧
      attempt.success = true ∧ attempt.stop = seed.stop ∧ v.length = t.length ∧
      node.growRounds (g.run depth) id position (rounds + 1) 1 seed t =
        .done (0, seed, v.emit (.growReject 1) node.label position seed.stop) := by
  subst hcursor hseed
  have hanswered := answered_of_eval hg hnode hs h
  have hinput : t.input = s.input := ht.input_eq.trans hanswered.within.input_eq
  obtain ⟨v, hv, hend⟩ := trial_replays hg hnot hnode hs h
    (t := (t.emit (.growAttempt 1) node.label s.cursor m.stop).seek s.cursor)
    (by simpa using hinput) rfl (by simpa using ht.memo_eq)
  have hlength : v.length = t.length := hend.length_eq.trans (length_eq (by simp))
  refine ⟨m, v, hv, hsuccess, rfl, hlength, Node.growRounds_eq_done_iff.2 ⟨?_, m, v, hv, ?_⟩⟩
  · exact length_eq hinput ▸ hs.cursor_le
  · exact .inr (.inl ⟨hsuccess, Nat.le_refl _, rfl, rfl, rfl⟩)

theorem BeginsToGrow.run_of_not_direct (hg : g.WellFormed) (hs : s.Sound g pending) {seed : Match}
    (h : g.BeginsToGrow depth node id s seed t) (hnot : ¬ g.CallsDirectly id id) :
    ∃ attempt w, node.eval (g.run depth) ((t.emit (.growAttempt 1) node.label s.cursor seed.stop).seek s.cursor) =
        .done (attempt, w) ∧
      attempt.success = true ∧ attempt.stop = seed.stop ∧
      g.run (depth + 1) id s = .done (seed,
        ((w.emit (.growReject 1) node.label s.cursor seed.stop).emit (.growTerminate 0) node.label s.cursor
          seed.stop).seek seed.stop) := by
  rw [h.run_eq]
  obtain ⟨first, u, hfirst, -, hsuccess, hseed, rfl⟩ := h.trial
  have hnoted := alike_emit s .memoCheck node.label s.cursor s.cursor
  have hbegin : ((s.emit .memoCheck node.label s.cursor s.cursor).remember s.cursor id
      (.placeholder s.cursor)).Sound g (pending.add s.cursor id) :=
    (hs.begin ((isVisible_iff h.node_eq).2 h.visible)).alike (hnoted.remember ..)
  have hanswered := answered_of_eval hg h.node_eq hbegin hfirst
  have hsaved : ((u.save s.cursor id node.label seed).emit .beginGrow node.label seed.start seed.stop).Alike
      (u.remember s.cursor id seed) := (alike_emit ..).trans (alike_save ..)
  obtain ⟨attempt, v, hattempt, hmatch, hstop, hlength, hgrow⟩ := growRounds_of_not_direct hg hnot h.node_eq
    hbegin hnoted.cursor_eq hfirst hsuccess hseed hsaved _
  refine ⟨attempt, v, hattempt, hmatch, hstop, Node.grow_eq_done_iff.2 ⟨0, _, hgrow, ?_, rfl⟩⟩
  have hle : first.stop ≤ u.length := by
    rw [hanswered.within.length_eq]
    exact hanswered.placed.stop_le
  rw [(alike_emit ..).length_eq, hlength, hsaved.length_eq, hseed]
  exact hle

end Grammar

end Packrat
