import Packrat.Proofs.Following

/-!
# Runs of different depths

A run that ends gives the same answer at every greater depth, so that the answer to a call may be
spoken of without its depth. The same argument compares runs from two sessions whose memo tables agree
only on some nodes: on a node that reaches no other ones, both give the same answer.
-/

namespace Packrat

/-- A relation between sessions under which they remember the same of the nodes in `known`. -/
structure Session.Agreement (known : NodeId → Prop) (S : Session → Session → Prop) : Prop
    extends Session.Congruence S where
  get?_eq : ∀ {s t id} position, known id → S s t → s.memo.get? position id = t.memo.get? position id
  remember : ∀ {s t id} position m, known id → S s t → S (s.remember position id m) (t.remember position id m)

theorem Session.Agreement.eq : Session.Agreement (fun _ => True) Eq where
  toCongruence := .eq
  get?_eq _ _ h := h ▸ rfl
  remember _ _ _ h := h ▸ rfl

structure Session.ShareOn (known : NodeId → Prop) (s t : Session) : Prop where
  input_eq : s.input = t.input
  positions_eq : s.memo.positions = t.memo.positions
  get?_eq : ∀ {id} position, known id → s.memo.get? position id = t.memo.get? position id

/-- The sessions differ at most in their notes and in what they remember of nodes that are not in
`known`. -/
structure Session.AgreeOn (known : NodeId → Prop) (s t : Session) : Prop extends Session.ShareOn known s t where
  cursor_eq : s.cursor = t.cursor

namespace Session

variable {known : NodeId → Prop} {s s' t t' : Session}

theorem ShareOn.refl (known : NodeId → Prop) (s : Session) : s.ShareOn known s := ⟨rfl, rfl, fun _ _ => rfl⟩

theorem ShareOn.trans {u : Session} (h : s.ShareOn known t) (h' : t.ShareOn known u) : s.ShareOn known u :=
  ⟨h.input_eq.trans h'.input_eq, h.positions_eq.trans h'.positions_eq,
    fun q hr => (h.get?_eq q hr).trans (h'.get?_eq q hr)⟩

theorem ShareOn.of_eq (h : s.ShareOn known t) (hinput : s'.input = s.input) (hmemo : s'.memo = s.memo)
    (hinput' : t'.input = t.input) (hmemo' : t'.memo = t.memo) : s'.ShareOn known t' where
  input_eq := by rw [hinput, hinput', h.input_eq]
  positions_eq := by rw [hmemo, hmemo', h.positions_eq]
  get?_eq q hr := by rw [hmemo, hmemo', h.get?_eq q hr]

theorem AgreeOn.of_eq (h : s.AgreeOn known t) (hinput : s'.input = s.input) (hcursor : s'.cursor = s.cursor)
    (hmemo : s'.memo = s.memo) (hinput' : t'.input = t.input) (hcursor' : t'.cursor = t.cursor)
    (hmemo' : t'.memo = t.memo) : s'.AgreeOn known t' where
  toShareOn := h.toShareOn.of_eq hinput hmemo hinput' hmemo'
  cursor_eq := by rw [hcursor, hcursor', h.cursor_eq]

/-- What two sessions share they go on to share when the same match is put into both. -/
theorem ShareOn.remember (h : s.ShareOn known t) (position : Nat) (id : NodeId) (m : Match) :
    (s.remember position id m).ShareOn known (t.remember position id m) where
  input_eq := h.input_eq
  positions_eq := by simpa using h.positions_eq
  get?_eq q hr := by
    simp only [memo_remember, MemoTable.get?_insert, h.positions_eq, h.get?_eq q hr]

theorem AgreeOn.agreement (known : NodeId → Prop) : Agreement known (AgreeOn known) where
  input_eq h := h.input_eq
  cursor_eq h := h.cursor_eq
  seek _ h := ⟨h.toShareOn.of_eq rfl rfl rfl rfl, rfl⟩
  emit _ _ _ _ h := h.of_eq (input_emit ..) (cursor_emit ..) (memo_emit ..) (input_emit ..) (cursor_emit ..)
    (memo_emit ..)
  noteFailure _ h := h.of_eq rfl rfl rfl rfl rfl rfl
  restoreFailure h _ := h.of_eq rfl rfl rfl rfl rfl rfl
  get?_eq position hid h := h.get?_eq position hid
  remember position m _ h := ⟨h.toShareOn.remember position _ m, h.cursor_eq⟩

end Session

structure Match.Likeness (R : Match → Match → Prop) : Prop extends Match.Congruence R where
  status_eq : ∀ {m n}, R m n → m.status = n.status
  withStatus : ∀ {m n} status, R m n → R (m.withStatus status) (n.withStatus status)

theorem Match.Likeness.eq : Match.Likeness Eq where
  toCongruence := .eq
  status_eq h := h ▸ rfl
  withStatus _ h := h ▸ rfl

structure Session.Correspondence (known : NodeId → Prop) (R : Match → Match → Prop) (S : Session → Session → Prop) :
    Prop extends Session.Congruence S where
  get?_rel : ∀ {s t id} position, known id → S s t →
    Option.Rel R (s.memo.get? position id) (t.memo.get? position id)
  remember : ∀ {s t id m n} position, known id → R m n → S s t →
    S (s.remember position id m) (t.remember position id n)

theorem Session.Agreement.correspondence {known : NodeId → Prop} {S : Session → Session → Prop}
    (hS : Session.Agreement known S) : Session.Correspondence known Eq S where
  toCongruence := hS.toCongruence
  get?_rel position hid hst := by
    rw [hS.get?_eq position hid hst]
    cases MemoTable.get? _ position _ with
    | none => exact .none
    | some m => exact .some rfl
  remember position hid h hst := h ▸ hS.remember position _ hid hst

theorem Session.Correspondence.remembered?_rel {known : NodeId → Prop} {R : Match → Match → Prop}
    {S : Session → Session → Prop} (hS : Session.Correspondence known R S) {id : NodeId} (hid : known id)
    {s t : Session} (hst : S s t) : Option.Rel R (s.remembered? id) (t.remembered? id) := by
  rw [Session.remembered?, Session.remembered?, ← hS.cursor_eq hst]
  exact hS.get?_rel _ hid hst

theorem Session.Correspondence.save {known : NodeId → Prop} {R : Match → Match → Prop}
    {S : Session → Session → Prop} (hS : Session.Correspondence known R S) (hR : Match.Likeness R) {id : NodeId}
    (hid : known id) {m n : Match} (hmn : R m n) {s t : Session} (hst : S s t) (position : Nat) (label : String) :
    S (s.save position id label m) (t.save position id label n) := by
  unfold Session.save
  rw [← hR.status_eq hmn, ← hR.start_eq hmn, ← hR.stop_eq hmn]
  exact hS.emit _ _ _ _ (hS.remember position hid hmn hst)

namespace Follows

variable {S : Session → Session → Prop} {fault : Prop} {α : Type} {Q : α → α → Prop} {R : Match → Match → Prop}
  {known : NodeId → Prop}

theorem remember (hS : Session.Correspondence known R S) {id : NodeId} (hid : known id) (position : Nat)
    {m n : Match} (hmn : R m n) {x y : Session → Run (α × Session)} (h : Follows S (fun _ => True) fault Q x y) :
    Follows S (fun _ => True) fault Q (fun s => x (s.remember position id m))
      (fun s => y (s.remember position id n)) :=
  fun _ a s' hx => ⟨fun _ => trivial, fun _ hst hF => (h _ a s' hx).2 _ (hS.remember _ hid hmn hst) hF⟩

theorem save (hS : Session.Correspondence known R S) (hR : Match.Likeness R) {id : NodeId} (hid : known id)
    (position : Nat) (label : String) {m n : Match} (hmn : R m n) {x y : Session → Run (α × Session)}
    (h : Follows S (fun _ => True) fault Q x y) :
    Follows S (fun _ => True) fault Q (fun s => x (s.save position id label m))
      (fun s => y (s.save position id label n)) :=
  fun _ a s' hx => ⟨fun _ => trivial, fun _ hst hF =>
    (h _ a s' hx).2 _ (hS.save hR hid hmn hst position label) hF⟩

end Follows

namespace Node

variable {S : Session → Session → Prop} {fault : Prop} {R : Match → Match → Prop} {known : NodeId → Prop}
  {call call' : Evaluator} {node : Node} {id : NodeId}

theorem answerFromMemo_follows (hS : Session.Correspondence known R S) (hR : Match.Likeness R) (hid : known id)
    {memo memo' : Match} (hmemo : R memo memo') :
    Follows S (fun _ => True) fault R (node.answerFromMemo id memo) (node.answerFromMemo id memo') := by
  have hmark : ∀ position, Follows S (fun _ => True) fault R
      (fun s => if memo.status = .possible then
        .done (memo.withStatus .detected, (s.remember position id (memo.withStatus .detected)).emit
          .identifyLeftRecursion node.label position position)
        else .done (memo, s.emit (.assumeResult memo.status) node.label memo.start memo.stop))
      (fun s => if memo.status = .possible then
        .done (memo'.withStatus .detected, (s.remember position id (memo'.withStatus .detected)).emit
          .identifyLeftRecursion node.label position position)
        else .done (memo', s.emit (.assumeResult memo.status) node.label memo.start memo.stop)) := by
    intro position
    have hdetected := hR.withStatus .detected hmemo
    split
    · exact Follows.remember hS hid _ hdetected (Follows.emit hS.toCongruence _ _ _ _ (.pure hdetected))
    · exact Follows.emit hS.toCongruence _ _ _ _ (.pure hmemo)
  intro s a s' h
  refine ⟨fun _ => trivial, fun t hst hF => ?_⟩
  unfold answerFromMemo at h ⊢
  dsimp only at h ⊢
  rw [← hS.cursor_eq hst, ← hR.success_eq hmemo, ← hR.status_eq hmemo, ← hR.start_eq hmemo, ← hR.stop_eq hmemo]
  by_cases hsuccess : memo.success = true
  · rw [if_pos hsuccess] at h ⊢
    exact (Follows.seek hS.toCongruence memo.stop (hmark s.cursor) s a s' h).2 t hst hF
  · rw [if_neg hsuccess] at h ⊢
    exact (hmark s.cursor s a s' h).2 t hst hF

theorem growRounds_follows (hS : Session.Correspondence known R S) (hR : Match.Likeness R) (hid : known id)
    (heval : Follows S (fun _ => True) fault R (node.eval call) (node.eval call')) {initial rounds : Nat}
    {iteration : Nat} {committed committed' : Match} (hcommitted : R committed committed') {s s' : Session} {n : Nat}
    {m : Match} (h : growRounds call node id initial rounds iteration committed s = .done (n, m, s')) {t : Session}
    (hst : S s t) :
    (growRounds call' node id initial rounds iteration committed' t).Yields fault False fun b =>
      n = b.1 ∧ R m b.2.1 ∧ S s' b.2.2 := by
  induction rounds generalizing iteration committed committed' s t with
  | zero => simp [growRounds] at h
  | succ rounds ih =>
    rw [growRounds] at h ⊢
    obtain ⟨s₁, hs₁, h⟩ := Run.bind_eq_done_iff.1 h
    obtain ⟨hle, rfl⟩ := Session.moveToR_eq_done_iff.1 hs₁
    obtain ⟨⟨attempt, s₂⟩, hattempt, h⟩ := Run.bind_eq_done_iff.1 h
    have hst₁ := hS.seek hle (hS.emit (.growAttempt iteration) node.label initial committed.stop hst)
    dsimp only at h ⊢
    rw [← hR.stop_eq hcommitted, Session.moveToR_of_le (Session.length_eq
      (hS.input_eq (hS.emit (.growAttempt iteration) node.label initial committed.stop hst)) ▸ hle)]
    refine ((heval _ attempt s₂ hattempt).2 _ hst₁ trivial).bind ?_
    rintro ⟨attempt', t₂⟩ ⟨hrel, hst₂⟩
    have hgrown := hR.withStatus .detected hrel
    dsimp only at hst₂ hgrown ⊢
    rw [← hR.success_eq hgrown, ← hR.stop_eq hgrown]
    split at h
    · rename_i hfail
      obtain ⟨rfl, rfl, rfl⟩ := by simpa using h
      rw [if_pos hfail]
      exact ⟨rfl, hcommitted, hS.emit _ _ _ _ hst₂⟩
    · rename_i hsuccess
      rw [if_neg hsuccess]
      split at h
      · rename_i hstill
        obtain ⟨rfl, rfl, rfl⟩ := by simpa using h
        rw [if_pos hstill]
        exact ⟨rfl, hcommitted, hS.emit _ _ _ _ hst₂⟩
      · rename_i hfurther
        rw [if_neg hfurther]
        exact ih hgrown h (hS.save hR hid hgrown (hS.emit _ _ _ _ hst₂) initial node.label)

theorem grow_follows (hS : Session.Correspondence known R S) (hR : Match.Likeness R) (hid : known id)
    (heval : Follows S (fun _ => True) fault R (node.eval call) (node.eval call')) (initial : Nat)
    {seed seed' : Match} (hseed : R seed seed') :
    Follows S (fun _ => True) fault R (node.grow call id initial seed) (node.grow call' id initial seed') := by
  intro s a s' h
  refine ⟨fun _ => trivial, fun t hst hF => ?_⟩
  unfold grow at h ⊢
  obtain ⟨⟨n, m, s₁⟩, hrounds, h⟩ := Run.bind_eq_done_iff.1 h
  have ht := growRounds_follows hS hR hid heval hseed hrounds hst
  rw [Session.length_eq (hS.input_eq hst), hR.stop_eq hseed] at ht
  refine ht.bind ?_
  rintro ⟨n', m', t₁⟩ ⟨rfl, hm, hst₁⟩
  have hrest : Follows S (fun _ => True) fault R
      (fun s => (s.emit (.growTerminate n) node.label initial m.stop).moveToR m.stop >>= fun s => .done (m, s))
      (fun s => (s.emit (.growTerminate n) node.label initial m.stop).moveToR m.stop >>= fun s => .done (m', s)) :=
    Follows.emit hS.toCongruence _ _ _ _ (Follows.seek hS.toCongruence _ (.pure hm))
  dsimp only at hm ⊢
  rw [← hR.stop_eq hm]
  exact (hrest s₁ a s' h).2 t₁ hst₁ hF

theorem answerFirst_follows (hS : Session.Correspondence known R S) (hR : Match.Likeness R) (hid : known id)
    (heval : Follows S (fun _ => True) fault R (node.eval call) (node.eval call')) :
    Follows S (fun _ => True) fault R (node.answerFirst call id) (node.answerFirst call' id) := by
  have hfirst : ∀ (position : Nat) {m m' : Match} (_ : R m m') (mark : Status), Follows S (fun _ => True) fault R
      (fun s => if mark = Status.detected && m.success then
          node.grow call id position (m.withStatus .detected)
            ((s.save position id node.label (m.withStatus .detected)).emit .beginGrow node.label m.start m.stop)
        else .done (m.withStatus .impossible, s.save position id node.label (m.withStatus .impossible)))
      (fun s => if mark = Status.detected && m'.success then
          node.grow call' id position (m'.withStatus .detected)
            ((s.save position id node.label (m'.withStatus .detected)).emit .beginGrow node.label m'.start m'.stop)
        else .done (m'.withStatus .impossible, s.save position id node.label (m'.withStatus .impossible))) := by
    intro position m m' hm mark
    rw [← hR.success_eq hm, ← hR.start_eq hm, ← hR.stop_eq hm]
    split
    · have hseed := hR.withStatus .detected hm
      exact Follows.save hS hR hid position node.label hseed
        (Follows.emit hS.toCongruence _ _ _ _ (grow_follows hS hR hid heval position hseed))
    · have hfinal := hR.withStatus .impossible hm
      exact Follows.save hS hR hid position node.label hfinal (.pure hfinal)
  intro s a s' h
  refine ⟨fun _ => trivial, fun t hst hF => ?_⟩
  unfold answerFirst at h ⊢
  obtain ⟨⟨m, s₁⟩, hm, h⟩ := Run.bind_eq_done_iff.1 h
  dsimp only at h ⊢
  rw [← hS.cursor_eq hst]
  refine ((heval _ m s₁ hm).2 _ (hS.remember _ hid (hR.refl _) hst) trivial).bind ?_
  rintro ⟨m', t₁⟩ ⟨hrel, hst₁⟩
  dsimp only at hrel hst₁ ⊢
  have hmark : ((s₁.memo.get? s.cursor id).map Match.status).getD .possible =
      ((t₁.memo.get? s.cursor id).map Match.status).getD .possible := by
    have hentry := hS.get?_rel s.cursor hid hst₁
    generalize s₁.memo.get? s.cursor id = e, t₁.memo.get? s.cursor id = e' at hentry ⊢
    cases hentry with
    | none => rfl
    | some h => simp [hR.status_eq h]
  rw [← hmark]
  exact (hfirst _ hrel _ s₁ a s' h).2 t₁ hst₁ hF

end Node

namespace Grammar

variable {S : Session → Session → Prop} {fault : Prop} {R : Match → Match → Prop} {known : NodeId → Prop}
  {call call' : Evaluator} {g : Grammar} {id c : NodeId} {s t : Session} {m n : Match} {depth depth' : Nat}

/-- A call is answered alike where the evaluation of its node is. -/
theorem answer_follows (hS : Session.Correspondence known R S) (hR : Match.Likeness R) (hid : known id)
    (heval : ∀ node, g.node? id = some node →
      Follows S (fun _ => True) fault R (node.eval call) (node.eval call')) :
    Follows S (fun _ => True) fault R (g.answer call id) (g.answer call' id) := by
  unfold answer
  cases hnode : g.node? id with
  | none => exact fun s a s' h => nomatch h
  | some node =>
    have heval := heval node hnode
    by_cases hhidden : node.hidden = true
    · simpa only [if_pos hhidden] using heval
    · simp only [if_neg hhidden]
      intro s a s' h
      refine ⟨fun _ => trivial, fun t hst hF => ?_⟩
      have hst₁ := hS.emit .memoCheck node.label s.cursor s.cursor hst
      have hlook := hS.remembered?_rel hid hst₁
      dsimp only at h ⊢
      rw [← hS.cursor_eq hst]
      generalize (s.emit .memoCheck node.label s.cursor s.cursor).remembered? id = memo? at h hlook
      generalize (t.emit .memoCheck node.label s.cursor s.cursor).remembered? id = memo?' at hlook ⊢
      cases hlook with
      | some hmemo => exact (Node.answerFromMemo_follows hS hR hid hmemo _ a s' h).2 _ hst₁ hF
      | none => exact (Node.answerFirst_follows hS hR hid heval _ a s' h).2 _ hst₁ hF

/-- Runs from sessions that agree on what can be reached give the same answer, the second at any depth
that is no smaller. -/
theorem run_follows (hS : Session.Agreement known S)
    (hclosed : ∀ id node, known id → g.node? id = some node → ∀ c ∈ node.pattern.components, known c)
    (hid : known id) (hle : depth ≤ depth') :
    Follows S (fun _ => True) False Eq (g.run depth id) (g.run depth' id) := by
  induction depth generalizing depth' id with
  | zero => exact fun s a s' h => nomatch h
  | succ depth ih =>
    obtain ⟨depth', rfl⟩ : ∃ k, depth' = k + 1 := ⟨depth' - 1, by omega⟩
    refine answer_follows hS.correspondence .eq hid fun node hnode => ?_
    apply Node.eval_follows hS.toCongruence .eq
    intro c hc
    exact ih (hclosed id node hid hnode c hc) (Nat.le_of_succ_le_succ hle)

theorem run_mono (h : g.run depth id s = .done (m, t)) (hle : depth ≤ depth') :
    g.run depth' id s = .done (m, t) := by
  have hfollow := (run_follows (g := g) .eq (fun _ _ _ _ _ _ => trivial) trivial hle s m t h).2 s rfl trivial
  obtain ⟨⟨m', t'⟩, hrun, rfl, rfl⟩ := hfollow.exists_done
  exact hrun

/-- The match of a node at the cursor ends, with `m` and in the session `t`. -/
def Matches (g : Grammar) (id : NodeId) (s : Session) (m : Match) (t : Session) : Prop :=
  ∃ depth, g.run depth id s = .done (m, t)

theorem Matches.unique {t' : Session} (h : g.Matches id s m t) (h' : g.Matches id s n t') : m = n ∧ t = t' := by
  obtain ⟨depth, h⟩ := h
  obtain ⟨depth', h'⟩ := h'
  have heq := (run_mono h (Nat.le_max_left depth depth')).symm.trans (run_mono h' (Nat.le_max_right _ _))
  exact Prod.mk.inj (Run.done.inj heq)

theorem matches_of_matchAt (h : g.matchAt id s = .done (m, t)) : g.Matches id s m t := by
  unfold matchAt at h
  split at h
  · exact ⟨_, h⟩
  · nomatch h

/-- What the matcher yields is a match. A check on a fixed input is to be given in place: naming it would
have the run evaluated once more. -/
theorem exists_matches {Q : Match × Session → Prop} (h : (g.matchAt id s).Yields False False Q) :
    ∃ m t, g.Matches id s m t ∧ Q (m, t) := by
  obtain ⟨⟨m, t⟩, hm, hQ⟩ := h.exists_done
  exact ⟨m, t, matches_of_matchAt hm, hQ⟩

/-- Two runs that end, from sessions that agree on what can be reached, have given the same answer. -/
theorem run_agrees {known : NodeId → Prop}
    (hclosed : ∀ id node, known id → g.node? id = some node → ∀ c ∈ node.pattern.components, known c)
    (hid : known id) {s₁ s₂ t₁ t₂ : Session} {m₁ m₂ : Match} (hs : s₁.AgreeOn known s₂)
    (h₁ : g.run depth id s₁ = .done (m₁, t₁)) (h₂ : g.run depth' id s₂ = .done (m₂, t₂)) :
    m₁ = m₂ ∧ t₁.AgreeOn known t₂ := by
  have hfollow : (g.run (max depth depth') id s₂).Yields False False fun b => m₁ = b.1 ∧ t₁.AgreeOn known b.2 :=
    (run_follows (Session.AgreeOn.agreement known) hclosed hid (Nat.le_max_left _ _) s₁ m₁ t₁ h₁).2 s₂ hs trivial
  exact hfollow.of_done (run_mono h₂ (Nat.le_max_right _ _))

end Grammar

end Packrat
