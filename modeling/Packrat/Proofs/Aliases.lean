import Packrat.Proofs.Ending
import Packrat.Proofs.Notes
import Packrat.Proofs.Outlines
import Packrat.Proofs.Redirecting

/-!
# Aliases are transparent

An alias is a name that is written in definitions and left out of trees. A grammar with an alias is compared with the
one in which each reference to the alias leads to its body instead. The alias is gone round with one call more, and its
match is a hidden one around that of the body; the memo table never hears of it. So both grammars answer a call with
the same outline, and remember matches with the same outline.
-/

namespace Packrat

open Match (Resembles SameOutline)

namespace Session

/-- The sessions differ at most in their events and in what is hidden in the trees that they remember. -/
structure SameOutlines (s t : Session) : Prop where
  input_eq : s.input = t.input
  cursor_eq : s.cursor = t.cursor
  positions_eq : s.memo.positions = t.memo.positions
  tracksFailures_eq : s.diagnostics.tracksFailures = t.diagnostics.tracksFailures
  furthestFailure?_eq : s.furthestFailure? = t.furthestFailure?
  get?_rel : ∀ position id, Option.Rel Resembles (s.memo.get? position id) (t.memo.get? position id)

variable {s t : Session}

theorem SameOutlines.refl (s : Session) : s.SameOutlines s := by
  refine ⟨rfl, rfl, rfl, rfl, rfl, fun position id => ?_⟩
  cases s.memo.get? position id with
  | none => exact .none
  | some m => exact .some (.refl m)

theorem SameOutlines.emit_left (h : s.SameOutlines t) (kind : EventKind) (label : String) (start stop : Nat) :
    (s.emit kind label start stop).SameOutlines t where
  input_eq := (input_emit ..).trans h.input_eq
  cursor_eq := (cursor_emit ..).trans h.cursor_eq
  positions_eq := by rw [memo_emit, h.positions_eq]
  tracksFailures_eq := (tracksFailures_emit ..).trans h.tracksFailures_eq
  furthestFailure?_eq := (furthestFailure?_emit ..).trans h.furthestFailure?_eq
  get?_rel position id := by
    rw [memo_emit]
    exact h.get?_rel position id

theorem SameOutlines.emit (h : s.SameOutlines t) (kind : EventKind) (label : String) (start stop : Nat) :
    (s.emit kind label start stop).SameOutlines (t.emit kind label start stop) where
  input_eq := by rw [input_emit, input_emit, h.input_eq]
  cursor_eq := by rw [cursor_emit, cursor_emit, h.cursor_eq]
  positions_eq := by rw [memo_emit, memo_emit, h.positions_eq]
  tracksFailures_eq := by rw [tracksFailures_emit, tracksFailures_emit, h.tracksFailures_eq]
  furthestFailure?_eq := by rw [furthestFailure?_emit, furthestFailure?_emit, h.furthestFailure?_eq]
  get?_rel position id := by
    rw [memo_emit, memo_emit]
    exact h.get?_rel position id

theorem SameOutlines.noteFailure (h : s.SameOutlines t) (position : Nat) :
    (s.noteFailure position).SameOutlines (t.noteFailure position) where
  input_eq := h.input_eq
  cursor_eq := h.cursor_eq
  positions_eq := h.positions_eq
  tracksFailures_eq := by rw [tracksFailures_noteFailure, tracksFailures_noteFailure, h.tracksFailures_eq]
  furthestFailure?_eq := by
    cases htracks : s.diagnostics.tracksFailures with
    | false =>
      rw [furthestFailure?_noteFailure_of_not_tracks htracks,
        furthestFailure?_noteFailure_of_not_tracks (h.tracksFailures_eq ▸ htracks), h.furthestFailure?_eq]
    | true =>
      rw [furthestFailure?_noteFailure_of_tracks htracks,
        furthestFailure?_noteFailure_of_tracks (h.tracksFailures_eq ▸ htracks), h.furthestFailure?_eq]
  get?_rel := h.get?_rel

theorem SameOutlines.remember {m n : Match} (h : s.SameOutlines t) (position : Nat) (id : NodeId) (hmn : m.Resembles n) :
    (s.remember position id m).SameOutlines (t.remember position id n) where
  input_eq := h.input_eq
  cursor_eq := h.cursor_eq
  positions_eq := by simpa using h.positions_eq
  tracksFailures_eq := h.tracksFailures_eq
  furthestFailure?_eq := h.furthestFailure?_eq
  get?_rel q r := by
    rw [memo_remember, memo_remember, MemoTable.get?_insert, MemoTable.get?_insert, h.positions_eq]
    split
    · exact .some hmn
    · exact h.get?_rel q r

theorem SameOutlines.correspondence : Correspondence (fun _ => True) Resembles SameOutlines where
  input_eq h := h.input_eq
  cursor_eq h := h.cursor_eq
  seek _ h := { h with cursor_eq := rfl }
  emit kind label start stop h := h.emit kind label start stop
  noteFailure position h := h.noteFailure position
  restoreFailure h h₀ := { h with furthestFailure?_eq := h₀.furthestFailure?_eq }
  get?_rel position _ h := h.get?_rel position _
  remember position _ hmn h := h.remember position _ hmn

end Session

open Session (SameOutlines)

namespace Grammar

/-- The grammar in which references to `nickname` lead to `body`. -/
def bypass (g : Grammar) (nickname body : NodeId) : Grammar := g.redirect fun c => if c = nickname then body else c

def HasAlias (g : Grammar) (nickname body : NodeId) : Prop :=
  ∃ node, g.node? nickname = some node ∧ node.isAlias = true ∧ node.pattern = .rule body

variable {g : Grammar} {nickname body id : NodeId} {depth : Nat} {s t : Session} {m n : Match} {call : Evaluator}

theorem size_bypass (g : Grammar) (nickname body : NodeId) : (g.bypass nickname body).size = g.size :=
  size_redirect _ g

theorem answer_bypass (g : Grammar) (nickname body : NodeId) (call : Evaluator) :
    (g.bypass nickname body).answer call = g.answer fun c => call (if c = nickname then body else c) :=
  answer_redirect _ g call

theorem Built.bypass (hg : g.Built) (halias : g.HasAlias nickname body) : (g.bypass nickname body).Built := by
  obtain ⟨node, hnode, _, hpattern⟩ := halias
  have hbody : body < g.size := hg.wellFormed.component_lt hnode (by simp [hpattern, Pattern.components])
  apply Built.redirect hg
  intro c hc
  split
  · exact hbody
  · exact hc

/-- What is made of the match of an alias is what is made of the match of its body. -/
theorem run_alias_follows (halias : g.HasAlias nickname body)
    (hbody : Follows SameOutlines (fun _ => True) False Resembles (g.run depth body) (call body)) :
    Follows SameOutlines (fun _ => True) False (fun c d => c.ofBody.SameOutline d.ofBody) (g.run (depth + 1) nickname)
      (call body) := by
  obtain ⟨node, hnode, hisAlias, hpattern⟩ := halias
  have hhidden : node.hidden = true := by simp [Node.hidden, Node.origin, Origin.hidden, hisAlias]
  intro s a s' h
  refine ⟨fun _ => trivial, fun t hst _ => ?_⟩
  rw [run, answer, hnode] at h
  simp only [if_pos hhidden, Node.eval, hpattern, Pattern.eval, Pattern.matchRule_eq] at h
  obtain ⟨⟨m, u⟩, hm, h⟩ := Run.bind_eq_done_iff.1 h
  obtain ⟨⟨child, v⟩, hchild, hm⟩ := Run.bind_eq_done_iff.1 hm
  obtain ⟨rfl, rfl⟩ := Prod.mk.inj (Run.done.inj hm)
  obtain ⟨rfl, rfl⟩ := Prod.mk.inj (Run.done.inj h)
  refine ((hbody _ child v hchild).2 t (hst.emit_left ..) trivial).mono ?_
  rintro ⟨child', v'⟩ ⟨hrel, hv⟩
  refine ⟨(Resembles.ofBody hrel).ofBody_stamp hhidden, ?_⟩
  dsimp only
  split
  · exact hv.emit_left ..
  · exact hv.emit_left ..

/-- By induction on the depth, the alias apart from the other nodes: where it is called there, its body is called
here. -/
theorem run_bypass_follows (halias : g.HasAlias nickname body) (hne : body ≠ nickname) (depth : Nat) :
    (∀ id, id ≠ nickname → Follows SameOutlines (fun _ => True) False Resembles (g.run depth id)
      ((g.bypass nickname body).run depth id)) ∧
    Follows SameOutlines (fun _ => True) False (fun c d => c.ofBody.SameOutline d.ofBody) (g.run depth nickname)
      ((g.bypass nickname body).run depth body) := by
  induction depth with
  | zero => exact ⟨fun _ _ _ _ _ h => (nomatch h), fun _ _ _ h => (nomatch h)⟩
  | succ depth ih =>
    obtain ⟨ihother, ihalias⟩ := ih
    constructor
    · intro id hid
      rw [run, run, answer_bypass]
      apply answer_follows SameOutlines.correspondence Match.Resembles.likeness trivial
      intro node hnode
      apply Node.eval_passes SameOutlines.correspondence.toCongruence SameOutline.passage
        Match.Resembles.likeness.toCongruence node (fun h => h.stamp node.origin)
      intro c _
      by_cases hc : c = nickname
      · subst hc
        simpa only [if_pos] using ihalias
      · simp only [if_neg hc]
        exact (ihother c hc).mono fun _ _ => Resembles.ofBody
    · apply run_alias_follows halias
      intro u a u' hrun
      refine ⟨fun _ => trivial, fun v huv hF => ?_⟩
      obtain ⟨⟨b, v'⟩, hb, hrel⟩ := ((ihother body hne u a u' hrun).2 v huv hF).exists_done
      rw [run_mono hb (Nat.le_succ depth)]
      exact hrel

/-- Two outcomes that cannot be told apart from outside: the matches, the sessions after them, and what these
remember, as far as it is not hidden. -/
structure LooksTheSame (m n : Match) (s t : Session) : Prop where
  success_eq : m.success = n.success
  start_eq : m.start = n.start
  stop_eq : m.stop = n.stop
  text_eq : m.text = n.text
  tree_eq : m.tree .visible = n.tree .visible
  toJson_eq : m.toJson .visible = n.toJson .visible
  cursor_eq : s.cursor = t.cursor
  furthestFailure?_eq : s.furthestFailure? = t.furthestFailure?
  keys_eq : ∀ position id, (s.memo.get? position id).isSome = (t.memo.get? position id).isSome
  entry_eq : ∀ {position id e e'}, s.memo.get? position id = some e → t.memo.get? position id = some e' →
    e.success = e'.success ∧ e.start = e'.start ∧ e.stop = e'.stop ∧ e.status = e'.status

theorem looksTheSame (hmn : m.Resembles n) (hst : s.SameOutlines t) : LooksTheSame m n s t where
  success_eq := hmn.success_eq
  start_eq := hmn.start_eq
  stop_eq := hmn.stop_eq
  text_eq := hmn.text_eq
  tree_eq := hmn.tree_eq
  toJson_eq := hmn.toJson_eq
  cursor_eq := hst.cursor_eq
  furthestFailure?_eq := hst.furthestFailure?_eq
  keys_eq position id := by
    have hrel := hst.get?_rel position id
    generalize s.memo.get? position id = e, t.memo.get? position id = e' at hrel
    cases hrel with
    | none => rfl
    | some _ => rfl
  entry_eq {position id e e'} h h' := by
    have hrel := hst.get?_rel position id
    rw [h, h'] at hrel
    cases hrel with
    | some hrel => exact ⟨hrel.success_eq, hrel.start_eq, hrel.stop_eq, hrel.status_eq⟩

/-- A run that ends does so past the alias as well, at the same depth. -/
theorem run_bypass (halias : g.HasAlias nickname body) (hne : body ≠ nickname) (hid : id ≠ nickname)
    (h : g.run depth id s = .done (m, t)) :
    ∃ n u, (g.bypass nickname body).run depth id s = .done (n, u) ∧ LooksTheSame m n t u := by
  have hfollow := ((run_bypass_follows halias hne depth).1 id hid s m t h).2 s (.refl s) trivial
  obtain ⟨⟨n, u⟩, hrun, hmn, htu⟩ := hfollow.exists_done
  exact ⟨n, u, hrun, looksTheSame hmn htu⟩

/-- Aliases are transparent. If every reference to an alias leads to its body instead, then what comes out is a
grammar that can be built, and the other nodes are matched there, in a session that has just been started and at any
position of any input, with the same outcome. If no cycle of leftmost components is all hidden, both matches end. -/
theorem Built.alias_is_transparent (hg : g.Built) (halias : g.HasAlias nickname body) (hne : body ≠ nickname)
    (hid : id ≠ nickname) (input : String) (options : Options) {position : Nat} (hposition : position ≤ input.length) :
    (g.bypass nickname body).Built ∧
    (∀ m t, g.Matches id ((Session.start input options).seek position) m t →
      ∃ n u, (g.bypass nickname body).Matches id ((Session.start input options).seek position) n u ∧
        LooksTheSame m n t u) ∧
    (g.NoHiddenCycle → g.contains id = true → ∃ m t n u,
      g.matchAt id ((Session.start input options).seek position) = .done (m, t) ∧
        (g.bypass nickname body).matchAt id ((Session.start input options).seek position) = .done (n, u) ∧
          LooksTheSame m n t u) := by
  refine ⟨hg.bypass halias, fun m t h => ?_, fun hcycle hcontains => ?_⟩
  · obtain ⟨depth, h⟩ := h
    obtain ⟨n, u, hrun, hsame⟩ := run_bypass halias hne hid h
    exact ⟨n, u, ⟨depth, hrun⟩, hsame⟩
  · have hsound : ((Session.start input options).seek position).Sound g .none := by
      apply (sound_start g input options).seek
      simpa [Session.start, Session.length, String.length_toList] using hposition
    obtain ⟨m, t, h⟩ := matchAt_ends hg.wellFormed hcycle hsound hcontains
    have hcontains' : (g.bypass nickname body).contains id = true := by
      rw [contains_iff, size_bypass]
      exact contains_iff.1 hcontains
    have hrun := h
    rw [matchAt, if_pos hcontains] at hrun
    obtain ⟨n, u, hrun, hsame⟩ := run_bypass halias hne hid hrun
    refine ⟨m, t, n, u, h, ?_, hsame⟩
    rw [matchAt, if_pos hcontains', depthBound, size_bypass]
    exact hrun

/-- `Expression <- Sum / Number`, where `Sum` is an alias of `Expression "-" Number` -/
def differences : Grammar := ⟨#[{ pattern := .charClass .digit }, { pattern := .repetition 0 1 none },
  { pattern := .rule 1, name? := some "Number" }, { pattern := .rule 7, name? := some "Expression" },
  { pattern := .literal "-" }, { pattern := .sequence [3, 4, 2] },
  { pattern := .rule 5, name? := some "Sum", isAlias := true }, { pattern := .choice [6, 2] }]⟩

theorem differences_built : differences.Built :=
  ⟨[.add (.charClass .digit), .add (.repetition 0 1 none), .declare "Number" false 1, .reserve "Expression" false,
    .add (.literal "-"), .add (.sequence [3, 4, 2]), .declare "Sum" true 5, .add (.choice [6, 2]), .define 3 7], rfl⟩

/-- The expression is left-recursive through the alias, and without it. -/
theorem differences_alias_is_transparent : ∃ m t n u,
    differences.Matches 3 ((Session.start "(9-4-1)" {}).seek 1) m t ∧
      (differences.bypass 6 5).Matches 3 ((Session.start "(9-4-1)" {}).seek 1) n u ∧
        m.success = true ∧ m.stop = 6 ∧ LooksTheSame m n t u := by
  obtain ⟨m, t, h, hsuccess, hstop⟩ := exists_matches (by decide +kernel :
    (differences.matchAt 3 ((Session.start "(9-4-1)" {}).seek 1)).Yields False False
      fun a => a.1.success = true ∧ a.1.stop = 6)
  obtain ⟨n, u, h', hsame⟩ := (Built.alias_is_transparent differences_built ⟨_, rfl, rfl, rfl⟩ (by decide : 5 ≠ 6)
    (by decide : 3 ≠ 6) "(9-4-1)" {} (by decide : 1 ≤ "(9-4-1)".length)).2.1 m t h
  exact ⟨m, t, n, u, h, h', hsuccess, hstop, hsame⟩

end Grammar

end Packrat
