import Packrat.Proofs.Below
import Packrat.Proofs.Keeping
import Packrat.Proofs.Names

/-!
# Accounts

What has been done for one rule at one position can be read off a history: how often its body has been tried and
grown, how often it has been looked up and written. Together with the rule's entry of the memo table this makes up
its books. The steps of matching leave the books of a rule alone, unless they are its own steps, at its own position;
a rule whose name is not that of a kind of patterns can be told by its label.
-/

namespace Packrat

open Session Pattern

/-- What has been done for a rule at a position. -/
structure Work where
  /-- Trials of the body. -/
  attempts : Nat := 0
  growAttempts : Nat := 0
  /-- Writes to the memo table. -/
  saves : Nat := 0
  growAccepts : Nat := 0
  begun : Nat := 0
  ended : Nat := 0
deriving DecidableEq

/-- How a rule has been looked up at a position. -/
structure LookUps where
  checks : Nat := 0
  /-- A match has been found and taken. -/
  reused : Nat := 0
  /-- The rule has been found to be under evaluation. -/
  marked : Nat := 0
deriving DecidableEq

structure Account extends Work, LookUps
deriving DecidableEq

namespace History

/-- The number of events with a label and a start, and of a kind that counts. -/
def tally (h : History) (label : String) (start : Nat) (counts : EventKind → Bool) : Nat :=
  h.countP fun e => counts e.kind && (e.label == label && e.start == start)

def account (h : History) (label : String) (start : Nat) : Account where
  attempts := h.tally label start fun | .attempt => true | _ => false
  growAttempts := h.tally label start fun | .growAttempt _ => true | _ => false
  saves := h.tally label start fun | .memoSave _ => true | _ => false
  growAccepts := h.tally label start fun | .growAccept _ => true | _ => false
  begun := h.tally label start fun | .beginGrow => true | _ => false
  ended := h.tally label start fun | .growTerminate _ => true | _ => false
  checks := h.tally label start fun | .memoCheck => true | _ => false
  reused := h.tally label start fun | .assumeResult _ => true | _ => false
  marked := h.tally label start fun | .identifyLeftRecursion => true | _ => false

end History

def Work.post (w : Work) : EventKind → Work
  | .attempt => { w with attempts := w.attempts + 1 }
  | .growAttempt _ => { w with growAttempts := w.growAttempts + 1 }
  | .memoSave _ => { w with saves := w.saves + 1 }
  | .growAccept _ => { w with growAccepts := w.growAccepts + 1 }
  | .beginGrow => { w with begun := w.begun + 1 }
  | .growTerminate _ => { w with ended := w.ended + 1 }
  | _ => w

def LookUps.post (l : LookUps) : EventKind → LookUps
  | .memoCheck => { l with checks := l.checks + 1 }
  | .assumeResult _ => { l with reused := l.reused + 1 }
  | .identifyLeftRecursion => { l with marked := l.marked + 1 }
  | _ => l

def Account.post (a : Account) (kind : EventKind) : Account := ⟨a.toWork.post kind, a.toLookUps.post kind⟩

def EventKind.Idle (kind : EventKind) : Prop := ∀ a : Account, a.post kind = a

theorem EventKind.idle_accept : EventKind.accept.Idle := fun _ => rfl

theorem EventKind.idle_reject : EventKind.reject.Idle := fun _ => rfl

theorem EventKind.idle_charAccept : EventKind.charAccept.Idle := fun _ => rfl

theorem History.account_push (h : History) (e : Event) (label : String) (start : Nat) :
    History.account (h.push e) label start =
      if e.label = label ∧ e.start = start then (h.account label start).post e.kind else h.account label start := by
  obtain ⟨kind, label', start', stop, text⟩ := e
  by_cases heq : label' = label ∧ start' = start
  · obtain ⟨rfl, rfl⟩ := heq
    cases kind <;> simp [account, tally, Account.post, Work.post, LookUps.post]
  · have hnot : (label' == label && start' == start) = false := by simpa using heq
    simp [account, tally, heq, hnot]

/-- The entry of a rule at a position, and its account, if there is one. -/
structure Books where
  found? : Option Match
  account? : Option Account

namespace Session

def books (s : Session) (rule : NodeId) (label : String) (position : Nat) : Books :=
  ⟨s.memo.get? position rule, s.history?.map fun history => history.account label position⟩

variable {s t : Session} {rule id : NodeId} {label label' : String} {position q : Nat} {m : Match} {kind : EventKind}

theorem books_congr (hmemo : t.memo = s.memo) (hhistory : t.history? = s.history?) :
    t.books rule label position = s.books rule label position := by
  rw [books, books, hmemo, hhistory]

@[simp] theorem books_seek : (s.seek q).books rule label position = s.books rule label position := rfl

@[simp] theorem books_noteFailure : (s.noteFailure q).books rule label position = s.books rule label position := by
  refine books_congr rfl ?_
  unfold noteFailure history? Diagnostics.noteFailure
  split <;> rfl

@[simp] theorem books_restoreFailure (furthest : Option Nat) :
    (s.restoreFailure furthest).books rule label position = s.books rule label position := rfl

theorem books_remember_of_ne (h : ¬ (q = position ∧ id = rule)) :
    (s.remember q id m).books rule label position = s.books rule label position := by
  have hne : ¬ (position = q ∧ rule = id) := fun hc => h ⟨hc.1.symm, hc.2.symm⟩
  rw [books, memo_remember, MemoTable.get?_insert_of_ne hne]
  rfl

theorem books_remember_self (h : position < s.memo.positions) :
    (s.remember position rule m).books rule label position = ⟨some m, (s.books rule label position).account?⟩ := by
  rw [books, memo_remember, MemoTable.get?_insert_self h]
  rfl

theorem books_emit (kind : EventKind) (label' : String) (start stop : Nat) :
    (s.emit kind label' start stop).books rule label position =
      ⟨(s.books rule label position).found?, (s.books rule label position).account?.map fun a =>
        if label' = label ∧ start = position then a.post kind else a⟩ := by
  have hhistory : (s.emit kind label' start stop).history?.map (fun history => history.account label position) =
      (s.history?.map fun history => history.account label position).map fun a =>
        if label' = label ∧ start = position then a.post kind else a := by
    cases hold : s.diagnostics.history? with
    | none => simp [emit, history?, hold]
    | some history => simp [emit, history?, hold, Diagnostics.record, History.account_push]
  rw [books, memo_emit, hhistory]
  rfl

theorem books_emit_of_not {start : Nat} (stop : Nat) (h : label' = label → start = position → kind.Idle) :
    (s.emit kind label' start stop).books rule label position = s.books rule label position := by
  have hid : ∀ a : Account, (if label' = label ∧ start = position then a.post kind else a) = a := by
    intro a
    split
    · rename_i heq
      exact h heq.1 heq.2 a
    · rfl
  rw [books_emit]
  simp only [hid, Option.map_id']

theorem Quiet.books (rule : NodeId) (label : String) (position : Nat) (K : Books → Prop) :
    Quiet fun s => K (s.books rule label position) where
  seek _ h := h
  noteFailure _ h := by rwa [books_noteFailure]
  restoreFailure _ h := h
  charAccept _ _ stop _ _ h := by rwa [books_emit_of_not stop fun _ _ => EventKind.idle_charAccept]

end Session

namespace Grammar

variable {g : Grammar} {pending : Pending} {rule id : NodeId} {node other : Node} {position depth : Nat} {s t : Session}
  {m : Match} {K : Books → Prop}

/-- A visible rule that is the only node with its label. -/
structure Singular (g : Grammar) (rule : NodeId) (node : Node) : Prop where
  node?_eq : g.node? rule = some node
  hidden_eq : node.hidden = false
  label_ne : ∀ {id other}, g.node? id = some other → id ≠ rule → other.label ≠ node.label

theorem Singular.isVisible (h : g.Singular rule node) : g.isVisible rule = true :=
  (isVisible_iff h.node?_eq).2 h.hidden_eq

theorem Built.singular (hg : g.Built) (hvisible : g.isVisible rule = true)
    (hname : ∀ kind : Kind, g.label rule ≠ kind.name) : ∃ node, g.Singular rule node ∧ g.label rule = node.label := by
  obtain ⟨node, hnode⟩ := exists_node_of_visible hvisible
  have hhidden := (isVisible_iff hnode).1 hvisible
  obtain ⟨name, hrule⟩ := Node.exists_name hhidden
  have hlabel : g.label rule = node.label := by simp [label, hnode]
  have hnamed : node.label = name := by simp [Node.label, Origin.label, Node.origin, hrule]
  refine ⟨node, ⟨hnode, hhidden, fun {id other} hother hne heq => ?_⟩, hlabel⟩
  cases hcase : other.name? with
  | none =>
    have hkind : other.label = other.kind.name := by simp [Node.label, Origin.label, Node.origin, hcase]
    exact hname other.kind (hlabel.trans (heq.symm.trans hkind))
  | some name' =>
    have hsame : other.label = name' := by simp [Node.label, Origin.label, Node.origin, hcase]
    have hnames : name' = name := hsame.symm.trans (heq.trans hnamed)
    exact hne (hg.name_injective hother hnode (hnames ▸ hcase) hrule)

/-- What is noted of other nodes, or at other positions, is not in the books. -/
theorem Singular.books_emit (hrule : g.Singular rule node) (hother : g.node? id = some other) (kind : EventKind)
    {start : Nat} (stop : Nat) (hne : ¬ (start = position ∧ id = rule)) :
    (s.emit kind other.label start stop).books rule node.label position = s.books rule node.label position := by
  refine books_emit_of_not stop fun hlabel hstart => absurd hlabel (hrule.label_ne hother fun hid => hne ⟨hstart, hid⟩)

theorem Singular.books_save (hrule : g.Singular rule node) (hother : g.node? id = some other) {q : Nat}
    (hstart : m.start = q) (hne : ¬ (q = position ∧ id = rule)) :
    (s.save q id other.label m).books rule node.label position = s.books rule node.label position := by
  rw [save, hrule.books_emit hother _ _ (hstart ▸ hne), books_remember_of_ne hne]

def CallsKeep (g : Grammar) (rule : NodeId) (label : String) (position : Nat) (K : Books → Prop) (depth : Nat) : Prop :=
  ∀ pending id s m t, s.Sound g pending → K (s.books rule label position) → g.run depth id s = .done (m, t) →
    K (t.books rule label position)

/-- A trial keeps what the calls inside it keep, once it has been noted. -/
theorem eval_keeps_books (hg : g.WellFormed) {label : String} (hcalls : g.CallsKeep rule label position K depth)
    (hnode : g.node? id = some other) (hs : s.Sound g pending)
    (hinit : K ((s.emit .attempt other.label s.cursor s.cursor).books rule label position))
    (h : other.eval (g.run depth) s = .done (m, t)) : K (t.books rule label position) := by
  have hconfined := Node.eval_confined hnode hs (run_answersInside hg hnode depth s) h
  obtain ⟨n, u, hn, _, rfl⟩ := Node.eval_eq_done_iff.1 hconfined
  have hbelow : ∀ c ∈ other.pattern.components, CallsBelow (fun v => K (v.books rule label position))
      (confined g pending (g.run depth) id s) (confined g pending (g.run depth) id s) c := by
    refine fun c _ v hv => Run.below_self fun ⟨k, w⟩ hw => ?_
    obtain ⟨hcan, hw⟩ := confined_eq_done hw
    exact hcalls pending c v k w hcan.1.sound hv hw
  have hu := ((Pattern.eval_below (.books rule label position K) other.label other.pattern hbelow hinit).of_done hn).2
  split
  · rwa [books_emit_of_not _ fun _ _ => EventKind.idle_accept]
  · rwa [books_emit_of_not _ fun _ _ => EventKind.idle_reject]

/-! ## The steps of other calls -/

section Elsewhere

variable (hg : g.WellFormed) (hrule : g.Singular rule node) (hcalls : g.CallsKeep rule node.label position K depth)
  (hother : g.node? id = some other)

include hrule hother

include hg hcalls in
theorem eval_elsewhere (hs : s.Sound g pending) (hne : ¬ (s.cursor = position ∧ id = rule))
    (hinit : K (s.books rule node.label position)) (h : other.eval (g.run depth) s = .done (m, t)) :
    K (t.books rule node.label position) := by
  refine eval_keeps_books hg hcalls hother hs ?_ h
  rwa [hrule.books_emit hother _ _ hne]

theorem answerFromMemo_elsewhere {null : Prop} {memo : Match} (hplaced : memo.Placed s.input s.cursor null)
    (hne : ¬ (s.cursor = position ∧ id = rule)) (h : other.answerFromMemo id memo s = .done (m, t)) :
    t.books rule node.label position = s.books rule node.label position := by
  rw [Node.answerFromMemo_eq hplaced] at h
  split at h
  · obtain ⟨_, rfl⟩ := Prod.mk.inj (Run.done.inj h)
    rw [hrule.books_emit hother _ _ hne, books_remember_of_ne hne, books_seek]
  · obtain ⟨_, rfl⟩ := Prod.mk.inj (Run.done.inj h)
    rw [hrule.books_emit hother _ _ (hplaced.start_eq.symm ▸ hne), books_seek]

include hg hcalls

theorem growRounds_elsewhere (hvisible : g.isVisible id = true) {q : Nat} (hne : ¬ (q = position ∧ id = rule))
    {rounds iteration k : Nat} {committed : Match} (hs : s.Sound g (pending.add q id))
    (hinit : K (s.books rule node.label position))
    (h : other.growRounds (g.run depth) id q rounds iteration committed s = .done (k, m, t)) :
    K (t.books rule node.label position) := by
  induction rounds generalizing iteration committed s with
  | zero => nomatch h
  | succ rounds ih =>
    obtain ⟨hle, attempt, v, hattempt, hcase⟩ := Node.growRounds_eq_done_iff.1 h
    have hsound : ((s.emit (.growAttempt iteration) other.label q committed.stop).seek q).Sound g (pending.add q id) :=
      (hs.seek hle).alike ((alike_emit ..).seek q)
    have hv := eval_elsewhere hg hrule hcalls hother hsound hne
      (by rwa [books_seek, hrule.books_emit hother _ _ hne]) hattempt
    rcases hcase with ⟨_, _, _, rfl⟩ | ⟨_, _, _, _, rfl⟩ | ⟨_, _, h⟩
    · rwa [hrule.books_emit hother _ _ hne]
    · rwa [hrule.books_emit hother _ _ hne]
    · have hanswered := answered_of_eval hg hother hsound hattempt
      have hplaced : (attempt.withStatus .detected).Placed v.input q (g.Nullable id) := by
        rw [hanswered.within.input_eq]
        exact hanswered.placed.withStatus _
      refine ih ?_ ?_ h
      · exact (hanswered.within.sound.remember hvisible hplaced fun hp => absurd (.inr ⟨rfl, rfl⟩) hp).alike
          ((alike_save ..).trans ((alike_emit ..).remember ..))
      · rwa [hrule.books_save hother hplaced.start_eq hne, hrule.books_emit hother _ _ hne]

theorem answerFirst_elsewhere (hvisible : g.isVisible id = true) (hs : s.Sound g pending)
    (hne : ¬ (s.cursor = position ∧ id = rule)) (hinit : K (s.books rule node.label position))
    (h : other.answerFirst (g.run depth) id s = .done (m, t)) : K (t.books rule node.label position) := by
  obtain ⟨first, u, hfirst, hcase⟩ := Node.answerFirst_eq_done_iff.1 h
  have hsound := hs.begin hvisible
  have hu := eval_elsewhere hg hrule hcalls hother hsound hne (by rwa [books_remember_of_ne hne]) hfirst
  have hanswered := answered_of_eval hg hother hsound hfirst
  have hplaced : ∀ status, (first.withStatus status).Placed u.input s.cursor (g.Nullable id) := by
    rw [hanswered.within.input_eq]
    exact hanswered.placed.withStatus
  split at hcase
  · obtain ⟨k, w, hgrow, _, rfl⟩ := Node.grow_eq_done_iff.1 hcase
    rw [books_seek, hrule.books_emit hother _ _ hne]
    have hseed : ((u.save s.cursor id other.label (first.withStatus .detected)).emit .beginGrow other.label first.start
        first.stop).Sound g (pending.add s.cursor id) :=
      (hanswered.within.sound.remember hvisible (hplaced .detected) fun hp => absurd (.inr ⟨rfl, rfl⟩) hp).alike
        ((alike_emit ..).trans (alike_save ..))
    refine growRounds_elsewhere hg hrule hcalls hother hvisible hne hseed ?_ hgrow
    rwa [hrule.books_emit hother _ _ ((hplaced .detected).start_eq.symm ▸ hne),
      hrule.books_save hother (hplaced .detected).start_eq hne]
  · obtain ⟨rfl, rfl⟩ := hcase
    rwa [hrule.books_save hother (hplaced .impossible).start_eq hne]

omit hother in
/-- A call of another rule, or at another position, keeps what the calls inside it keep. -/
theorem run_elsewhere (hs : s.Sound g pending) (hne : ¬ (s.cursor = position ∧ id = rule))
    (hinit : K (s.books rule node.label position)) (h : g.run (depth + 1) id s = .done (m, t)) :
    K (t.books rule node.label position) := by
  obtain ⟨other, hother⟩ := exists_node (answered_of_run hg hs h).1
  by_cases hvisible : g.isVisible id = true
  · have hhidden := (isVisible_iff hother).1 hvisible
    have hnoted : K ((s.emit .memoCheck other.label s.cursor s.cursor).books rule node.label position) := by
      rwa [hrule.books_emit hother _ _ hne]
    have hsound := hs.alike (alike_emit s .memoCheck other.label s.cursor s.cursor)
    rw [run] at h
    cases hmemo : s.remembered? id with
    | none =>
      rw [answer_of_absent hother hhidden hmemo] at h
      exact answerFirst_elsewhere hg hrule hcalls hother hvisible hsound (by rwa [cursor_emit]) hnoted h
    | some memo =>
      have hplaced := hs.placed hmemo
      rw [answer_of_remembered hother hhidden hmemo] at h
      rwa [answerFromMemo_elsewhere hrule hother (by simpa using hplaced) (by rwa [cursor_emit]) h]
  · rw [run_of_hidden hother ((not_visible_iff hother).1 hvisible)] at h
    exact eval_elsewhere hg hrule hcalls hother hs hne hinit h

end Elsewhere

end Grammar

end Packrat
