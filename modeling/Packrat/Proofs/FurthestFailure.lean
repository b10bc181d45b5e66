import Packrat.Matcher.Parse
import Packrat.Proofs.Ending
import Packrat.Proofs.Failures

/-!
# The furthest failure

Without left recursion a match is what plain evaluation says, and the furthest failure that is noted is one that plain
evaluation tells of. It need not be the furthest of them: what fails inside a lookahead is withdrawn when the lookahead
is left, but the memo table keeps the matches that were made there, and a rule that is found in the table notes nothing.
So a rule that is called inside a lookahead first and outside of it later has failures that are never told. Where no
rule is called in both ways, the furthest failure is the furthest of all.
-/

namespace Packrat

open Session Pattern

namespace Grammar

/-- The node can be called from `start` without entering a lookahead. -/
inductive Outside (g : Grammar) (start : NodeId) : NodeId → Prop
  | start : Outside g start start
  | step {id c : NodeId} {node : Node} (h : Outside g start id) (hnode : g.node? id = some node)
      (hkind : node.pattern.kind ≠ .predicate) (hc : c ∈ node.pattern.components) : Outside g start c

/-- The node can be called from `start` inside a lookahead. -/
inductive Inside (g : Grammar) (start : NodeId) : NodeId → Prop
  | enter {id body : NodeId} {node : Node} {expected : Bool} (h : g.Outside start id) (hnode : g.node? id = some node)
      (hpattern : node.pattern = .predicate body expected) : Inside g start body
  | step {id c : NodeId} {node : Node} (h : Inside g start id) (hnode : g.node? id = some node)
      (hc : c ∈ node.pattern.components) : Inside g start c

/-- The calls outside lookaheads are those of nodes in `out`, and the calls inside are those of nodes in `inn`. No
visible rule is called in both ways. -/
structure Sides (g : Grammar) (out inn : NodeId → Prop) : Prop where
  outside : ∀ {id node}, g.node? id = some node → out id → node.pattern.kind ≠ .predicate →
    ∀ c ∈ node.pattern.components, out c
  enters : ∀ {id node body expected}, g.node? id = some node → out id → node.pattern = .predicate body expected →
    inn body
  inside : ∀ {id node}, g.node? id = some node → inn id → ∀ c ∈ node.pattern.components, inn c
  apart : ∀ {r}, g.isVisible r = true → out r → ¬ inn r

variable {g : Grammar} {out inn known : NodeId → Prop} {pending : Pending} {id r : NodeId} {node : Node} {q depth : Nat}
  {s t : Session} {m : Match}

/-- Whatever can be called, all calls may be thought of as calls inside a lookahead. -/
theorem Sides.all (g : Grammar) : g.Sides (fun _ => False) fun _ => True where
  outside _ h := h.elim
  enters _ _ _ := trivial
  inside _ _ _ _ := trivial
  apart _ h := h.elim

theorem Sides.of_start {start : NodeId} (h : ∀ r, g.isVisible r = true → g.Outside start r → ¬ g.Inside start r) :
    g.Sides (g.Outside start) (g.Inside start) where
  outside hnode hout hkind _ hc := hout.step hnode hkind hc
  enters hnode hout hpattern := .enter hout hnode hpattern
  inside hnode hinn _ hc := hinn.step hnode hc
  apart hvisible hout := h _ hvisible hout

/-! ## Calls write entries of nodes that they can reach -/

section Writes

variable (hrun : ∀ c u k v, known c → g.run depth c u = .done (k, v) → v.memo.get? q r = u.memo.get? q r)

include hrun

theorem eval_leaves (hcs : ∀ c ∈ node.pattern.components, known c) (h : node.eval (g.run depth) s = .done (m, t)) :
    t.memo.get? q r = s.memo.get? q r := by
  obtain ⟨n, u, hn, _, rfl⟩ := Node.eval_eq_done_iff.1 h
  have hbelow : ∀ c ∈ node.pattern.components,
      CallsBelow (fun v => v.memo.get? q r = s.memo.get? q r) (g.run depth) (g.run depth) c := by
    rintro c hc v hv
    exact Run.below_self fun ⟨k, w⟩ hw => (hrun c v k w (hcs c hc) hw).trans hv
  have hu := ((Pattern.eval_below (.table fun table => table.get? q r = s.memo.get? q r) node.label node.pattern hbelow
    (by rw [memo_emit])).of_done hn).2
  split
  · rwa [memo_emit]
  · rwa [memo_emit]

theorem growRounds_leaves (hcs : ∀ c ∈ node.pattern.components, known c) (hne : r ≠ id)
    {initial rounds iteration n : Nat} {committed : Match}
    (h : node.growRounds (g.run depth) id initial rounds iteration committed s = .done (n, m, t)) :
    t.memo.get? q r = s.memo.get? q r := by
  induction rounds generalizing iteration committed s with
  | zero => nomatch h
  | succ rounds ih =>
    obtain ⟨u, attempt, v, hu, _, hattempt, hcase⟩ := Node.growRounds_cases h
    have hv : v.memo.get? q r = s.memo.get? q r := by
      rw [eval_leaves hrun hcs hattempt, hu.memo_eq, memo_seek]
    rcases hcase with ⟨_, _, _, ht⟩ | ⟨_, _, w, hw, h⟩
    · rw [ht.memo_eq, hv]
    · rw [ih h, hw.memo_eq, memo_remember, MemoTable.get?_insert_of_ne fun heq => hne heq.2, hv]

theorem answerFirst_leaves (hcs : ∀ c ∈ node.pattern.components, known c) (hne : r ≠ id)
    (h : node.answerFirst (g.run depth) id s = .done (m, t)) : t.memo.get? q r = s.memo.get? q r := by
  obtain ⟨first, u, hfirst, hcase⟩ := Node.answerFirst_cases h
  have hother : ∀ (table : MemoTable) position n, (table.insert position id n).get? q r = table.get? q r :=
    fun table position n => MemoTable.get?_insert_of_ne fun heq => hne heq.2
  have hu : u.memo.get? q r = s.memo.get? q r := by
    rw [eval_leaves hrun hcs hfirst, memo_remember, hother]
  rcases hcase with ⟨_, _, v, k, w, hv, hgrow, _, ht⟩ | ⟨_, _, ht⟩
  · rw [ht.memo_eq, memo_seek, growRounds_leaves hrun hcs hne hgrow, hv.memo_eq, memo_remember, hother, hu]
  · rw [ht.memo_eq, memo_remember, hother, hu]

end Writes

/-- A call leaves alone the entries of nodes that cannot be reached from its own. -/
theorem run_leaves (hclosed : ∀ id node, known id → g.node? id = some node → ∀ c ∈ node.pattern.components, known c)
    (hid : known id) (hr : ¬ known r) (h : g.run depth id s = .done (m, t)) : t.memo.get? q r = s.memo.get? q r := by
  induction depth generalizing id s m t with
  | zero => cases h
  | succ depth ih =>
    have hne : r ≠ id := fun heq => hr (heq ▸ hid)
    cases hnode : g.node? id with
    | none =>
      rw [run, answer, hnode] at h
      cases h
    | some node =>
      have hcs := hclosed id node hid hnode
      cases hhidden : node.hidden with
      | true =>
        rw [run_of_hidden hnode hhidden] at h
        exact eval_leaves (fun c u k v hc hu => ih hc hu) hcs h
      | false =>
        cases hmemo : s.remembered? id with
        | none =>
          obtain ⟨s', hs', hfirst⟩ := run_of_not_remembered depth hnode hhidden hmemo
          rw [answerFirst_leaves (fun c u k v hc hu => ih hc hu) hcs hne (hfirst.symm.trans h), hs'.memo_eq]
        | some memo =>
          rw [run, answer_of_remembered hnode hhidden hmemo] at h
          rcases (Node.answerFromMemo_cases h).2 with ⟨_, _, ht⟩ | ⟨_, _, ht⟩
          · rw [ht.memo_eq, memo_remember, MemoTable.get?_insert_of_ne fun heq => hne heq.2, memo_seek, memo_emit]
          · rw [ht.memo_eq, memo_seek, memo_emit]

/-! ## What calls tell -/

def RunsTell (g : Grammar) (out inn : NodeId → Prop) (depth : Nat) : Prop :=
  ∀ pending id s m t, s.Met g pending id → s.Told g out pending → out id ∨ inn id →
    g.run depth id s = .done (m, t) → Tells g out pending (out id) (.node id) s m.stop? t

section Calls

variable (hg : g.WellFormed) (hsides : g.Sides out inn) (hrun : g.RunsTell out inn depth)

include hg hsides hrun

theorem eval_tells (hnode : g.node? id = some node) (hside : out id ∨ inn id) (hs : s.Sound g pending)
    (hlead : pending.LeadTo g s.cursor id) (htold : s.Told g out pending)
    (h : node.eval (g.run depth) s = .done (m, t)) : Tells g out pending (out id) (.node id) s m.stop? t := by
  have hconfined := Node.eval_confined hnode hs (run_answersInside hg hnode depth s) h
  obtain ⟨n, u, hn, rfl, rfl⟩ := Node.eval_eq_done_iff.1 hconfined
  have hcalls : ∀ c, out c ∨ inn c → CallsTell g out pending (out c) (confined g pending (g.run depth) id s) c := by
    intro c hc v k w hv hw
    obtain ⟨hcan, hw⟩ := confined_eq_done hw
    exact hrun pending c v k w ⟨hcan.1.sound, hlead.into hcan.1 hcan.2, hv.marked⟩ hv hc hw
  have hlooked : ∀ body expected, node.pattern = .predicate body expected → inn body := fun body expected hpattern =>
    hside.elim (fun hout => hsides.enters hnode hout hpattern)
      fun hinn => hsides.inside hnode hinn body (by simp [hpattern, components])
  have hpattern : Tells g out pending (out id) (.pattern node.pattern) (s.emit .attempt node.label s.cursor s.cursor)
      n.stop? u := by
    refine Pattern.eval_tells (fun hkind c hc => ?_) (fun body expected hpattern => ⟨?_, ?_⟩) (htold.emit ..) hn
    · have hcside : out c ∨ inn c := hside.imp (fun hout => hsides.outside hnode hout hkind c hc)
        fun hinn => hsides.inside hnode hinn c hc
      exact fun v k w hv hw => (hcalls c hcside v k w hv hw).mono fun hout => hsides.outside hnode hout hkind c hc
    · have hbody := hlooked body expected hpattern
      exact fun v k w hv hw => (hcalls body (.inr hbody) v k w hv hw).mono False.elim
    · intro k v hv q r e hout he
      have hbody := hlooked body expected hpattern
      obtain ⟨hcan, hv⟩ := confined_eq_done hv
      have hvisible := (answered_of_run hg hcan.1.sound hv).2.within.sound.visible he
      rwa [run_leaves (fun id node hid hnode => hsides.inside hnode hid) hbody (hsides.apart hvisible hout) hv] at he
  have hwhole : Tells g out pending (out id) (.node id) s n.stop? u := hpattern.of_emit.map (.node hnode)
  rw [Match.stop?_stamp]
  split
  · exact hwhole.emit _ _ _ _
  · exact hwhole.emit _ _ _ _

variable (hfree : g.isLeftRecursive id = false)

include hfree

/-- A rule that is not left-recursive is tried once, and what it gives is remembered. -/
theorem answerFirst_tells (hnode : g.node? id = some node) (hvisible : g.isVisible id = true) (hside : out id ∨ inn id)
    (hs : s.Met g pending id) (htold : s.Told g out pending) (h : node.answerFirst (g.run depth) id s = .done (m, t)) :
    Tells g out pending (out id) (.node id) s m.stop? t := by
  obtain ⟨first, u, hfirst, hcase⟩ := Node.answerFirst_eq_done_iff.1 h
  have htrying := hs.begin hvisible
  have hanswered := answered_of_eval hg hnode htrying.sound hfirst
  have htells := eval_tells hg hsides hrun hnode hside htrying.sound htrying.lead (htold.begin ..) hfirst
  obtain ⟨failures, hplain, hnoted⟩ := htells.plain
  have hunmarked : ((u.memo.get? s.cursor id).map Match.status).getD .possible ≠ .detected := by
    intro hmark
    rw [htells.told.marked.isLeftRecursive hmark] at hfree
    nomatch hfree
  rw [if_neg fun hgrows => hunmarked hgrows.1] at hcase
  obtain ⟨rfl, rfl⟩ := hcase
  have hpos : s.cursor < u.memo.positions := hanswered.within.cursor_lt
  have hnoted : s.Noted (out id) failures u := hnoted.after rfl rfl
  have hplain' : g.Plain u.input (.node id) s.cursor (first.withStatus .impossible).stop? failures :=
    hnoted.input_eq ▸ hplain
  exact ⟨htells.told.save hpos (by simp) hplain' hnoted,
    ⟨failures, hplain, hnoted.then (input_save ..) (furthestFailure?_emit ..)⟩,
    fun stop hstop => (cursor_save ..).trans (htells.cursor_eq stop hstop)⟩

end Calls

/-- A rule that is found in the table is not tried again, so that it notes nothing. -/
theorem answerFromMemo_tells (hfree : g.isLeftRecursive id = false) (hs : s.Met g pending id)
    (htold : s.Told g out pending) {memo : Match} (hmemo : s.remembered? id = some memo)
    (h : node.answerFromMemo id memo s = .done (m, t)) : Tells g out pending (out id) (.node id) s m.stop? t := by
  have hpossible : memo.status ≠ .possible := fun hpossible => by
    rw [isLeftRecursive_of_path (hs.path hmemo hpossible)] at hfree
    nomatch hfree
  have hp : ¬ pending s.cursor id := fun hp => by
    rw [isLeftRecursive_of_path ((hs.lead _ _ hp).resolve_left (Nat.lt_irrefl _)).2] at hfree
    nomatch hfree
  obtain ⟨failures, hplain, hreaches⟩ := htold.entry hmemo hp
  rw [Node.answerFromMemo_eq (hs.sound.placed hmemo), if_neg hpossible] at h
  obtain ⟨rfl, rfl⟩ := Prod.mk.inj (Run.done.inj h)
  have hnoted : s.Noted (out id) failures s := .of_reached hreaches
  refine ⟨(htold.seek _).emit _ _ _ _, ⟨failures, hplain, hnoted.then (by simp) (by simp; rfl)⟩, fun stop hstop => ?_⟩
  unfold Match.stop? at hstop
  split at hstop
  · exact (cursor_emit ..).trans (Option.some.inj hstop)
  · nomatch hstop

theorem told_start (g : Grammar) (out : NodeId → Prop) (input : String) {options : Options}
    (htracks : options.trackFurthestFailure = true) : (Session.start input options).Told g out .none where
  tracks := htracks
  marked q r e he := by simp [Session.start] at he
  entry he := by simp [Session.start] at he

section

variable (hfree : ∀ id < g.size, g.isLeftRecursive id = false)

include hfree

theorem noHiddenCycle_of_not_leftRecursive : g.NoHiddenCycle := by
  intro id hcycle
  obtain ⟨c, hedge, _⟩ := Relation.TransGen.head'_iff.1 hcycle
  obtain ⟨node, hnode, _⟩ := hedge.1.exists_node
  have hfree := hfree id (lt_size_of_node? hnode)
  rw [isLeftRecursive_of_path (Relation.TransGen.mono (fun _ _ hedge => hedge.1) _ _ hcycle)] at hfree
  nomatch hfree

variable (hg : g.WellFormed)

include hg

theorem run_tells (hsides : g.Sides out inn) (depth : Nat) : g.RunsTell out inn depth := by
  induction depth with
  | zero =>
    intro pending id s m t _ _ _ h
    nomatch h
  | succ depth ih =>
    intro pending id s m t hs htold hside h
    have hid := (answered_of_run hg hs.sound h).1
    obtain ⟨node, hnode⟩ := exists_node hid
    cases hhidden : node.hidden with
    | true =>
      rw [run_of_hidden hnode hhidden] at h
      exact eval_tells hg hsides ih hnode hside hs.sound hs.lead.leadTo htold h
    | false =>
      have hs' := hs.alike (alike_emit s .memoCheck node.label s.cursor s.cursor)
      have htold' := htold.emit .memoCheck node.label s.cursor s.cursor
      cases hmemo : s.remembered? id with
      | some memo =>
        rw [run, answer_of_remembered hnode hhidden hmemo] at h
        exact (answerFromMemo_tells (hfree id hid) hs' htold' (by simpa [remembered?] using hmemo) h).of_emit
      | none =>
        rw [run, answer_of_absent hnode hhidden hmemo] at h
        have hvisible := (isVisible_iff hnode).2 hhidden
        exact (answerFirst_tells hg hsides ih (hfree id hid) hnode hvisible hside hs' htold' h).of_emit

theorem matchAt_tells (hsides : g.Sides out inn) {start : NodeId} (hside : out start ∨ inn start) {input : String}
    {options : Options} (htracks : options.trackFurthestFailure = true)
    (h : g.matchAt start (Session.start input options) = .done (m, t)) :
    Tells g out .none (out start) (.node start) (Session.start input options) m.stop? t := by
  obtain ⟨depth, h⟩ := matches_of_matchAt h
  exact run_tells hfree hg hsides depth .none start _ m t ((Reached.start input options).met hg start)
    (told_start g out input htracks) hside h

end

/-- Without left recursion a match is what plain evaluation says, which always ends, and the furthest failure is one of
those that plain evaluation tells of. If no visible rule can be called both inside a lookahead and outside of all
lookaheads, it is the furthest of them, and there is none only if plain evaluation tells of none. -/
theorem Built.furthest_failure_is_plain (hg : g.Built) (hfree : ∀ id < g.size, g.isLeftRecursive id = false)
    {start : NodeId} (hstart : g.contains start = true) (input : String) {options : Options}
    (htracks : options.trackFurthestFailure = true) :
    ∃ o failures, g.parse options start input = .done o ∧
      (∀ stop? failures', g.Plain input.toList.toArray (.node start) 0 stop? failures' ↔
        stop? = o.result.stop? ∧ failures' = failures) ∧
      (∀ furthest, o.furthestFailure? = some furthest → furthest ∈ failures) ∧
      ((∀ r, g.isVisible r = true → g.Outside start r → ¬ g.Inside start r) →
        o.furthestFailure? = failures.max?) := by
  have hcycle := noHiddenCycle_of_not_leftRecursive hfree
  obtain ⟨m, t, h⟩ := matchAt_ends hg.wellFormed hcycle (sound_start g input options) hstart
  obtain ⟨failures, hplain, hnoted⟩ := (matchAt_tells hfree hg.wellFormed (.all g) (.inr trivial) htracks h).plain
  refine ⟨.ofSession m t, failures, ?_, fun stop? failures' => ⟨fun h' => h'.unique hplain, ?_⟩, ?_, fun hapart => ?_⟩
  · rw [parse, h]
    rfl
  · rintro ⟨rfl, rfl⟩
    exact hplain
  · exact fun furthest hfurthest => (hnoted.only furthest hfurthest).resolve_left fun hnone => nomatch hnone
  · obtain ⟨failures', hplain', hnoted'⟩ :=
      (matchAt_tells hfree hg.wellFormed (.of_start hapart) (.inl .start) htracks h).plain
    obtain ⟨-, rfl⟩ := hplain'.unique hplain
    exact hnoted'.furthestFailure?_eq rfl .start

/-- `!"a" A` with `A <- "a"`, or `!A A` if the lookahead is for node 1. -/
def refusal (looked : NodeId) : Grammar := ⟨#[{ pattern := .literal "a" }, { pattern := .rule 0, name? := some "A" },
  { pattern := .predicate looked false }, { pattern := .sequence [2, 1] }]⟩

theorem refusal_built {looked : NodeId} (h : looked ≤ 1) : (refusal looked).Built := by
  refine ⟨[.add (.literal "a"), .declare "A" false 0, .add (.predicate looked false), .add (.sequence [2, 1])], ?_⟩
  match looked, h with
  | 0, _ => rfl
  | 1, _ => rfl

/-- Inside the lookahead of `!"a" A` no rule is called. -/
theorem eq_zero_of_inside (h : (refusal 0).Inside 3 r) : r = 0 := by
  have hlooked : ∀ id < (refusal 0).size, ∀ node ∈ (refusal 0).node? id, node.pattern.kind = .predicate →
      ∀ c ∈ node.pattern.components, c = 0 := by decide
  have hliteral : ∀ node ∈ (refusal 0).node? 0, node.pattern.components = [] := by decide
  induction h with
  | enter _ hnode hpattern =>
    exact hlooked _ (lt_size_of_node? hnode) _ hnode (by rw [hpattern, kind]) _ (by simp [hpattern, components])
  | step _ hnode hc ih =>
    rw [hliteral _ (ih ▸ hnode)] at hc
    cases hc

/-- In front of a `b` the rule is tried for the first time after the lookahead, and its failure is noted. -/
theorem refusal_furthest_failure_is_plain : ∃ o, (refusal 0).parse {} 3 "b" = .done o ∧ o.furthestFailure? = some 0 ∧
    (∃ failures, (refusal 0).Plain #['b'] (.node 3) 0 o.result.stop? failures ∧ failures.max? = some 0) := by
  obtain ⟨o, ho, hfurthest⟩ := (by decide +kernel : ((refusal 0).parse {} 3 "b").Yields False False
    fun o => o.furthestFailure? = some 0).exists_done
  obtain ⟨o', failures, ho', hplain, _, hmax⟩ := Built.furthest_failure_is_plain (refusal_built (Nat.zero_le 1))
    (by decide) (by decide : (refusal 0).contains 3 = true) "b" (rfl : ({} : Options).trackFurthestFailure = true)
  obtain rfl := Run.done.inj (ho.symm.trans ho')
  refine ⟨o, ho, hfurthest, failures, (hplain _ _).2 ⟨rfl, rfl⟩, ?_⟩
  rw [← hmax, hfurthest]
  intro r hvisible _ hinside
  obtain rfl := eq_zero_of_inside hinside
  exact absurd hvisible (by decide)

/-- In `!A A` the rule is tried inside the lookahead first. What fails there is withdrawn, and afterwards the rule is
found in the memo table: no failure is noted, though plain evaluation tells of one. -/
theorem refusal_notes_no_failure :
    (refusal 1).Built ∧ (∀ id < (refusal 1).size, (refusal 1).isLeftRecursive id = false) ∧
    (∃ o, (refusal 1).parse {} 3 "b" = .done o ∧ o.furthestFailure? = none) ∧
    (refusal 1).Plain "b".toList.toArray (.node 3) 0 none [0] := by
  have hdiffers : DiffersAfter "b".toList.toArray 0 "a" 0 :=
    ⟨by decide, fun j hj => absurd hj (Nat.not_lt_zero j), by decide⟩
  have hliteral : (refusal 1).Plain "b".toList.toArray (.node 0) 0 none [0] := .node rfl (.literalFails hdiffers)
  have hrule : (refusal 1).Plain "b".toList.toArray (.node 1) 0 none [0] := .node rfl (.rule hliteral)
  have hlookahead : (refusal 1).Plain "b".toList.toArray (.node 2) 0 (some 0) [] := .node rfl (.predicate hrule)
  refine ⟨refusal_built (Nat.le_refl 1), by decide, ?_, .node rfl (.sequence (.item hlookahead (.itemFails hrule)))⟩
  exact (by decide +kernel : ((refusal 1).parse {} 3 "b").Yields False False
    fun o => o.furthestFailure? = none).exists_done

end Grammar

end Packrat
