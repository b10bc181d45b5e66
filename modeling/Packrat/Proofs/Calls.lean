import Packrat.Proofs.Below
import Packrat.Proofs.Holding
import Packrat.Proofs.LeftSearch

/-!
# The calls of a run

A run makes a call if its outcome hangs on the answer to this call. All calls that are made in the course of a
run can be reached in this way, one inside the other. In each of them the session is sound, the calls that are
still being evaluated have led to it by way of at least one edge, and only rules that the analysis finds to be
left-recursive are marked in the memo table. A call that finds a placeholder is one of those that led to it, so
that it closes a cycle of leftmost edges.
-/

namespace Packrat

open Session Pattern

namespace Evaluator

open Classical in
noncomputable def answering (call : Evaluator) (c : NodeId) (t : Session) (a : Answer) : Evaluator :=
  fun d u => if d = c ∧ u = t then a else call d u

open Classical in
noncomputable def only (P : NodeId → Session → Prop) (call : Evaluator) : Evaluator :=
  fun c t => if P c t then call c t else .fault (.unknownNode c) t

variable {P Q : NodeId → Session → Prop} {call call' : Evaluator} {c : NodeId} {t : Session}
  {J : Match × Session → Prop}

theorem only_below (hsame : P c t → call' c t = call c t) (hJ : P c t → ∀ a, call c t = .done a → J a) :
    (only P call c t).Below J (call' c t) := by
  unfold only
  split
  · rename_i hP
    rw [hsame hP]
    exact Run.below_self (hJ hP)
  · exact trivial

end Evaluator

/-- What `x` comes to hangs on the answer to the call of `c` in `t`: this is one of the calls that it makes. -/
def Consults {α : Type} (x : Evaluator → Run α) (call : Evaluator) (c : NodeId) (t : Session) : Prop :=
  ∃ a, x (call.answering c t a) ≠ x call

/-- A call is made if a fault in its place is met. -/
theorem consults_of_fault {α : Type} {x : Evaluator → Run α} {call : Evaluator} {c : NodeId} {t : Session}
    {e : MatchError} (h : x (call.answering c t (.fault e t)) = .fault e t) (hx : ∀ e u, x call ≠ .fault e u) :
    Consults x call c t :=
  ⟨.fault e t, fun heq => hx e t (heq.symm.trans h)⟩

/-- In the course of the call of `id` in `s`, with `depth` calls nested at most, comes the call of `r` in `u`,
with `rest` of them left. -/
inductive Grammar.Calls (g : Grammar) : (depth : Nat) → NodeId → Session → (rest : Nat) → NodeId → Session → Prop
  | self (depth : Nat) (id : NodeId) (s : Session) : Calls g depth id s depth id s
  | inside {depth rest : Nat} {id c r : NodeId} {s t u : Session}
      (hcall : Consults (fun call => g.answer call id s) (g.run depth) c t) (hrest : Calls g depth c t rest r u) :
      Calls g (depth + 1) id s rest r u

/-- The call of `id` at `position` leads to one of `r` at `q` by way of at least one other call. -/
def Grammar.LeadsInto (g : Grammar) (position : Nat) (id : NodeId) (q : Nat) (r : NodeId) : Prop :=
  position < q ∨ (position = q ∧ Relation.TransGen g.LeftEdge id r)

def Pending.LeadInto (g : Grammar) (pending : Pending) (position : Nat) (id : NodeId) : Prop :=
  ∀ q r, pending q r → g.LeadsInto q r position id

/-- Only rules that are found to be left-recursive are marked in the memo table. -/
def MemoTable.Marked (g : Grammar) (t : MemoTable) : Prop :=
  ∀ q r e, t.get? q r = some e → e.status = .detected → g.isLeftRecursive r = true

structure Session.Met (g : Grammar) (pending : Pending) (id : NodeId) (s : Session) : Prop where
  sound : s.Sound g pending
  lead : pending.LeadInto g s.cursor id
  marked : s.memo.Marked g

/-- What is known of a session in which the pattern of `id` is tried. The call of `id` may itself be pending. -/
structure Session.Trying (g : Grammar) (pending : Pending) (id : NodeId) (s : Session) : Prop where
  sound : s.Sound g pending
  lead : pending.LeadTo g s.cursor id
  marked : s.memo.Marked g

variable {g : Grammar} {pending : Pending} {position q depth : Nat} {id c r : NodeId} {node : Node}
  {s t u : Session} {m : Match}

theorem Grammar.LeadsInto.leads (h : g.LeadsInto position id q r) : g.Leads position id q r :=
  h.imp_right fun ⟨hq, hr⟩ => ⟨hq, hr.to_reflTransGen⟩

theorem Pending.LeadInto.leadTo (h : pending.LeadInto g position id) : pending.LeadTo g position id :=
  fun q r hp => (h q r hp).leads

theorem Pending.LeadInto.none (g : Grammar) (position : Nat) (id : NodeId) : Pending.none.LeadInto g position id :=
  fun _ _ hp => hp.elim

theorem Pending.LeadTo.into (h : pending.LeadTo g s.cursor id) (ht : s.Within g pending t)
    (hleft : t.cursor = s.cursor → g.LeftEdge id c) : pending.LeadInto g t.cursor c := by
  intro q r hp
  have hle := ht.cursor_le
  rcases h q r hp with hlt | ⟨rfl, hpath⟩
  · exact .inl (by omega)
  · rcases Nat.eq_or_lt_of_le hle with heq | hlt
    · exact .inr ⟨heq, .tail' hpath (hleft heq.symm)⟩
    · exact .inl hlt

namespace MemoTable

theorem Marked.insert {table : MemoTable} (h : table.Marked g)
    (hm : m.status = .detected → g.isLeftRecursive id = true) : (table.insert position id m).Marked g := by
  intro q r e he hstatus
  rw [get?_insert] at he
  split at he
  · rename_i heq
    obtain rfl := Option.some.inj he
    exact heq.2.2 ▸ hm hstatus
  · exact h q r e he hstatus

theorem Marked.begin {table : MemoTable} (h : table.Marked g) :
    (table.insert position id (.placeholder position)).Marked g :=
  h.insert fun hstatus => nomatch hstatus

theorem Marked.isLeftRecursive {table : MemoTable} (h : table.Marked g)
    (hmark : ((table.get? position id).map Match.status).getD .possible = .detected) :
    g.isLeftRecursive id = true := by
  cases hentry : table.get? position id with
  | none => simp [hentry] at hmark
  | some e => exact h position id e hentry (by simpa [hentry] using hmark)

end MemoTable

namespace Session

theorem Met.trying (hs : s.Met g pending id) : s.Trying g pending id := ⟨hs.sound, hs.lead.leadTo, hs.marked⟩

theorem Met.alike (hs : s.Met g pending id) (h : t.Alike s) : t.Met g pending id :=
  ⟨hs.sound.alike h, h.cursor_eq ▸ hs.lead, h.memo_eq ▸ hs.marked⟩

theorem Met.begin (hs : s.Met g pending id) (hvisible : g.isVisible id = true) :
    (s.remember s.cursor id (.placeholder s.cursor)).Trying g (pending.add s.cursor id) id where
  sound := hs.sound.begin hvisible
  lead := hs.lead.leadTo.add
  marked := hs.marked.begin

theorem Trying.met (hs : s.Trying g pending id) (ht : s.Within g pending t)
    (hleft : t.cursor = s.cursor → g.LeftEdge id c) (hmarked : t.memo.Marked g) : t.Met g pending c :=
  ⟨ht.sound, hs.lead.into ht hleft, hmarked⟩

/-- A rule whose call finds a placeholder closes a cycle of leftmost edges. -/
theorem Met.path (hs : s.Met g pending id) {memo : Match} (hmemo : s.memo.get? s.cursor id = some memo)
    (hpossible : memo.status = .possible) : Relation.TransGen g.LeftEdge id id := by
  have hp : pending s.cursor id := by
    by_contra hp
    exact (hs.sound.settled hmemo hp).status_ne hpossible
  exact ((hs.lead _ _ hp).resolve_left (Nat.lt_irrefl _)).2

end Session

namespace Grammar

/-! ## Marks -/

def RunsMark (g : Grammar) (depth : Nat) : Prop :=
  ∀ pending id s m t, s.Met g pending id → g.run depth id s = .done (m, t) → t.memo.Marked g

/-- The calls that are made while a pattern is tried are met as all calls are, and so keep the marks. -/
theorem eval_met (hg : g.WellFormed) (hrun : g.RunsMark depth) (hnode : g.node? id = some node)
    (hs : s.Trying g pending id) (h : node.eval (g.run depth) s = .done (m, t)) :
    node.eval (Evaluator.only (fun c u => ∃ pending, u.Met g pending c) (g.run depth)) s = .done (m, t) ∧
      t.memo.Marked g := by
  have hconfined := Node.eval_confined hnode hs.sound (run_answersInside hg hnode depth s) h
  refine (Node.eval_below (T := MemoTable.Marked g) (fun c u hmarked => ?_) hs.marked).of_done hconfined
  unfold confined
  split
  · rename_i hcan
    have hmet := hs.met hcan.1 hcan.2 hmarked
    rw [Evaluator.only, if_pos ⟨pending, hmet⟩]
    exact Run.below_self fun ⟨n, v⟩ hv => hrun pending c u n v hmet hv
  · exact trivial

/-- Once a rule is known to be left-recursive, growing it may mark it. -/
theorem growRounds_marks (hg : g.WellFormed) (hrun : g.RunsMark depth) (hnode : g.node? id = some node)
    (hvisible : g.isVisible id = true) (hrec : g.isLeftRecursive id = true)
    (hlead : pending.LeadTo g position id) {rounds iteration k : Nat} {committed : Match}
    (hs : s.Sound g (pending.add position id)) (hmarked : s.memo.Marked g)
    (h : node.growRounds (g.run depth) id position rounds iteration committed s = .done (k, m, t)) : t.memo.Marked g := by
  refine (growRounds_keeps hg (ofTable_memo (MemoTable.Marked g)) hnode hvisible ?_ hs hmarked h).2
  intro u n v hu hcursor hmarked hv
  have hvmarked := (eval_met hg hrun hnode ⟨hu, hcursor ▸ hlead.add, hmarked⟩ hv).2
  exact ⟨hvmarked, fun _ => hvmarked.insert fun _ => hrec⟩

theorem answerFirst_marks (hg : g.WellFormed) (hrun : g.RunsMark depth) (hnode : g.node? id = some node)
    (hvisible : g.isVisible id = true) (hs : s.Met g pending id)
    (h : node.answerFirst (g.run depth) id s = .done (m, t)) : t.memo.Marked g := by
  obtain ⟨first, u, hfirst, hcase⟩ := Node.answerFirst_cases h
  have hbegin := hs.begin hvisible
  have hu := (eval_met hg hrun hnode hbegin hfirst).2
  rcases hcase with ⟨hmark, _, v, k, w, hv, hgrow, _, ht⟩ | ⟨_, rfl, ht⟩
  · have hrec := hu.isLeftRecursive hmark
    have hanswered := answered_of_eval hg hnode hbegin.sound hfirst
    have hplaced : first.Placed u.input s.cursor (g.Nullable id) := by
      rw [hanswered.within.input_eq]
      exact hanswered.placed
    have hsaved := hanswered.within.sound.remember hvisible (hplaced.withStatus .detected)
      fun hp => absurd (.inr ⟨rfl, rfl⟩) hp
    rw [ht.memo_eq, memo_seek]
    refine growRounds_marks hg hrun hnode hvisible hrec hs.lead.leadTo (hsaved.alike hv) ?_ hgrow
    rw [hv.memo_eq]
    exact hu.insert fun _ => hrec
  · rw [ht.memo_eq]
    exact hu.insert fun hstatus => nomatch hstatus

theorem run_marks (hg : g.WellFormed) (depth : Nat) : g.RunsMark depth := by
  induction depth with
  | zero =>
    intro pending id s m t _ h
    nomatch h
  | succ depth ih =>
    intro pending id s m t hs h
    obtain ⟨node, hnode⟩ := exists_node (answered_of_run hg hs.sound h).1
    by_cases hvisible : g.isVisible id = true
    · cases hmemo : s.memo.get? s.cursor id with
      | some memo =>
        obtain ⟨t', ht', _, _, htable⟩ := run_of_remembered depth hvisible hmemo (hs.sound.placed hmemo)
        obtain ⟨_, rfl⟩ := Prod.mk.inj (Run.done.inj (h.symm.trans ht'))
        rw [htable]
        split
        · rename_i hpossible
          exact hs.marked.insert fun _ => isLeftRecursive_of_path (hs.path hmemo hpossible)
        · exact hs.marked
      | none =>
        obtain ⟨s', hs', hfirst⟩ := run_of_not_remembered depth hnode ((isVisible_iff hnode).1 hvisible) hmemo
        rw [hfirst] at h
        exact answerFirst_marks hg ih hnode hvisible (hs.alike hs') h
    · rw [run_of_hidden hnode ((not_visible_iff hnode).1 hvisible)] at h
      exact (eval_met hg ih hnode hs.trying h).2

theorem Reached.marked (hg : g.WellFormed) (hs : g.Reached s) : s.memo.Marked g := by
  induction hs with
  | start input options => exact fun q r e he => by simp [Session.start] at he
  | matched hs h ih =>
    obtain ⟨depth, h⟩ := h
    exact run_marks hg depth .none _ _ _ _ ⟨hs.sound hg, .none g _ _, ih⟩ h
  | refused hs h ih =>
    obtain rfl := hs.eq_of_refused hg h
    exact ih
  | moved _ h ih =>
    obtain ⟨_, rfl⟩ := eq_seek_of_moveTo h
    exact ih
  | advanced _ h ih =>
    obtain ⟨_, rfl⟩ := eq_seek_of_next h
    exact ih
  | forgot _ ih => exact fun q r e he => ih q r e (get?_of_forget he)

theorem Reached.met (hg : g.WellFormed) (hs : g.Reached s) (id : NodeId) : s.Met g .none id :=
  ⟨hs.sound hg, .none g _ _, hs.marked hg⟩

/-! ## The calls that are made -/

/-- What is known of a call of `c` in `t` that comes from a call of `id` at `position`, marks aside. -/
def Led (g : Grammar) (position : Nat) (id c : NodeId) (t : Session) : Prop :=
  (∃ pending : Pending, t.Sound g pending ∧ pending.LeadInto g t.cursor c) ∧ (t.cursor = position → g.LeftEdge id c)

def Permitted (g : Grammar) (position : Nat) (id c : NodeId) (t : Session) : Prop :=
  (∃ pending, t.Met g pending c) ∧ (t.cursor = position → g.LeftEdge id c)

theorem answer_eq_of_below {call call' : Evaluator}
    (h : (g.answer call id s).Below (fun _ => True) (g.answer call' id s))
    (hfault : id < g.size → ∀ e t, g.answer call id s ≠ .fault e t) : g.answer call id s = g.answer call' id s := by
  by_cases hid : id < g.size
  · exact h.eq (hfault hid)
  · have hnode : g.node? id = none := node?_eq_none_iff.2 (Nat.not_lt.1 hid)
    simp only [answer, hnode]

theorem answer_ne_fault (hg : g.WellFormed) (hs : s.Sound g pending) (depth : Nat) (hid : id < g.size)
    (e : MatchError) (t : Session) : g.answer (g.run depth) id s ≠ .fault e t := by
  have hrun : (g.run (depth + 1) id s).Yields False True fun a => Answered g pending (g.Nullable id) s a.1 a.2 :=
    run_answered hg (.inl trivial) hid hs (.inl trivial)
  exact hrun.ne_fault e t

/-- Every call is led to: with a fault for all others there is no difference. -/
theorem answer_led (hg : g.WellFormed) (hs : s.Met g pending id) (depth : Nat) :
    g.answer (Evaluator.only (g.Led s.cursor id) (g.run depth)) id s = g.answer (g.run depth) id s := by
  refine answer_eq_of_below (answer_below_of_forall ?_ g id s) fun hid => ?_
  · exact fun c u => Evaluator.only_below (fun _ => rfl) fun _ _ _ => trivial
  · obtain ⟨node, hnode⟩ := exists_node hid
    have hinside : ∀ {pending : Pending} {u : Session}, u.cursor = s.cursor → pending.LeadTo g u.cursor id →
        AnswersInside g pending True (Evaluator.only (g.Led s.cursor id) (g.run depth)) id u
          node.pattern.components := by
      intro pending u hcursor hlead c hc t ht hleft
      have hled : g.Led s.cursor id c t := ⟨⟨pending, ht.sound, hlead.into ht hleft⟩, hcursor ▸ hleft⟩
      unfold Answers Evaluator.only
      rw [if_pos hled]
      exact run_answered hg (.inl trivial) (hg.component_lt hnode hc) ht.sound (.inl trivial)
    have hanswered := answer_answered hnode hs.sound (fun _ => hinside rfl hs.lead.leadTo)
      fun _ _ u hu => hinside hu.cursor_eq (hu.cursor_eq ▸ hs.lead.leadTo.add)
    exact hanswered.ne_fault

/-- Every call is permitted. The marks are kept along the way, as every call that is made keeps them. -/
theorem answer_permitted (hg : g.WellFormed) (hs : s.Met g pending id) (depth : Nat) :
    g.answer (Evaluator.only (g.Permitted s.cursor id) (g.run depth)) id s = g.answer (g.run depth) id s := by
  have hled := answer_led hg hs depth
  refine Eq.trans (answer_eq_of_below ?_ fun hid => ?_).symm hled
  · refine answer_below (T := MemoTable.Marked g) ?_ (fun _ _ h => h.begin) (fun _ _ h => h.isLeftRecursive)
      (fun hrec _ _ _ h => h.insert fun _ => hrec) hs.marked
    intro c u hmarked
    refine Evaluator.only_below ?_ ?_
    · rintro ⟨⟨pending, hu, hlead⟩, hleft⟩
      exact if_pos ⟨⟨pending, hu, hlead, hmarked⟩, hleft⟩
    · rintro ⟨⟨pending, hu, hlead⟩, _⟩ ⟨n, v⟩ hv
      exact run_marks hg depth pending c u n v ⟨hu, hlead, hmarked⟩ hv
  · exact hled ▸ answer_ne_fault hg hs.sound depth hid

theorem permitted_of_consults (hg : g.WellFormed) (hs : s.Met g pending id)
    (h : Consults (fun call => g.answer call id s) (g.run depth) c t) : g.Permitted s.cursor id c t := by
  by_contra hnot
  obtain ⟨a, hne⟩ := h
  have hpermitted := answer_permitted hg hs depth
  refine hne (Eq.trans (answer_eq_of_below (answer_below_of_forall ?_ g id s) fun hid => ?_).symm hpermitted)
  · intro d u
    refine Evaluator.only_below (fun hP => if_neg ?_) fun _ _ _ => trivial
    rintro ⟨rfl, rfl⟩
    exact hnot hP
  · exact hpermitted ▸ answer_ne_fault hg hs.sound depth hid

theorem Calls.met (hg : g.WellFormed) {rest : Nat} (h : g.Calls depth id s rest r u) (hs : s.Met g pending id) :
    ∃ pending, u.Met g pending r := by
  induction h generalizing pending with
  | self => exact ⟨_, hs⟩
  | inside hcall _ ih =>
    obtain ⟨_, ht⟩ := (permitted_of_consults hg hs hcall).1
    exact ih ht

end Grammar

end Packrat
