import Packrat.Proofs.CallSteps
import Packrat.Proofs.Following
import Packrat.Proofs.Runs

/-!
# What the calls inside a node keep

A node makes no calls but those that it can make: in a session that is met during its match, and before any
character has been taken only of its leftmost components. What each of these calls keeps of the memo table is
kept by the match of the node. The first call of a rule keeps it as well if the rule's own entry may be
written over with every match that its trials give.
-/

namespace Packrat

open Session Pattern

namespace Pattern

open Classical in
/-- What answers the calls that the node `id` can make from `s`, and no others. -/
noncomputable def confined (g : Grammar) (pending : Pending) (call : Evaluator) (id : NodeId) (s : Session) :
    Evaluator := fun c t =>
  if s.Within g pending t ∧ (t.cursor = s.cursor → g.LeftEdge id c) then call c t else .fault (.unknownNode c) t

theorem confined_eq_done {g : Grammar} {pending : Pending} {call : Evaluator} {id c : NodeId} {s t : Session}
    {a : Match × Session} (h : confined g pending call id s c t = .done a) :
    (s.Within g pending t ∧ (t.cursor = s.cursor → g.LeftEdge id c)) ∧ call c t = .done a := by
  unfold confined at h
  split at h
  · rename_i hcan
    exact ⟨hcan, h⟩
  · nomatch h

end Pattern

theorem Node.eval_confined {g : Grammar} {pending : Pending} {call : Evaluator} {id : NodeId} {node : Node}
    {s t : Session} {m : Match} (hnode : g.node? id = some node) (hs : s.Sound g pending)
    (hcall : AnswersInside g pending True call id s node.pattern.components)
    (h : node.eval call s = .done (m, t)) : node.eval (confined g pending call id s) s = .done (m, t) := by
  have hfollow : (node.eval (confined g pending call id s) s).Yields True False fun b => m = b.1 ∧ t = b.2 := by
    refine (Node.eval_follows (F := fun _ => True) .eq .eq node ?_ s m t h).2 s rfl trivial
    intro c _ u a u' hu
    refine ⟨fun _ => trivial, ?_⟩
    rintro _ rfl _
    unfold confined
    split
    · rw [hu]
      exact ⟨rfl, rfl⟩
    · trivial
  have hanswered : (node.eval (confined g pending call id s) s).Yields False True fun a =>
      Answered g pending (g.Nullable id) s a.1 a.2 ∧ a.1.origin? = some node.origin := by
    apply Node.eval_answered hnode hs
    intro c hc u hu hleft
    unfold Answers confined
    rw [if_pos ⟨hu, hleft⟩]
    exact hcall c hc u hu hleft
  cases hr : node.eval (confined g pending call id s) s with
  | done b =>
    rw [hr] at hfollow
    obtain ⟨rfl, rfl⟩ := hfollow
    rfl
  | fault e u =>
    rw [hr] at hanswered
    exact hanswered.elim
  | exhausted =>
    rw [hr] at hfollow
    exact hfollow.elim

/-- A property of the input and the memo table: notes do not matter, nor does the place of the cursor. -/
def Session.OfTable (I : Session → Prop) : Prop :=
  ∀ {s t : Session}, I s → t.input = s.input → t.memo = s.memo → t.cursor ≤ t.length → I t

theorem Session.ofTable_memo (T : MemoTable → Prop) : OfTable fun s => T s.memo := by
  intro s t hs _ hmemo _
  rwa [hmemo]

structure Session.Same (I : Session → Prop) (s t : Session) : Prop where
  eq : s = t
  cursor_le : s.cursor ≤ s.length
  holds : I s

theorem Session.Same.congruence {I : Session → Prop} (hI : OfTable I) : Congruence (Same I) where
  input_eq h := h.eq ▸ rfl
  cursor_eq h := h.eq ▸ rfl
  seek hle h := ⟨h.eq ▸ rfl, hle, hI h.holds rfl rfl hle⟩
  emit {s _} kind label start stop h := by
    have halike := alike_emit s kind label start stop
    have hle := halike.cursor_eq ▸ halike.length_eq ▸ h.cursor_le
    exact ⟨h.eq ▸ rfl, hle, hI h.holds halike.input_eq halike.memo_eq hle⟩
  noteFailure _ h := ⟨h.eq ▸ rfl, h.cursor_le, hI h.holds rfl rfl h.cursor_le⟩
  restoreFailure h h₀ := ⟨h.eq ▸ h₀.eq ▸ rfl, h.cursor_le, hI h.holds rfl rfl h.cursor_le⟩

namespace Grammar

variable {g : Grammar} {pending : Pending} {id : NodeId} {node : Node} {depth : Nat} {s t : Session}
  {m : Match} {I : Session → Prop}

theorem eval_keeps (hg : g.WellFormed) (hI : OfTable I) (hnode : g.node? id = some node)
    (hs : s.Sound g pending)
    (hcall : ∀ c u n v, s.Within g pending u → (u.cursor = s.cursor → g.LeftEdge id c) → I u →
      g.run depth c u = .done (n, v) → I v)
    (hinit : I s) (h : node.eval (g.run depth) s = .done (m, t)) : I t := by
  have hconfined := Node.eval_confined hnode hs (run_answersInside hg hnode depth s) h
  have hcalls : ∀ c ∈ node.pattern.components, Follows (Same I) (fun _ => True) False Eq
      (confined g pending (g.run depth) id s c) (confined g pending (g.run depth) id s c) := by
    intro c _ u n v hu
    refine ⟨fun _ => trivial, fun w hw _ => ?_⟩
    obtain rfl := hw.eq
    rw [hu]
    obtain ⟨hcan, hu⟩ := confined_eq_done hu
    have hv := (answered_of_run hg hcan.1.sound hu).2.within.sound
    exact ⟨rfl, rfl, hv.cursor_le, hcall c u n v hcan.1 hcan.2 hw.holds hu⟩
  have hfollow := (Node.eval_follows (Same.congruence hI) .eq node hcalls s m t hconfined).2 s
    ⟨rfl, hs.cursor_le, hinit⟩ trivial
  obtain ⟨_, _, _, hsame⟩ := hfollow.exists_done
  exact hsame.holds

/-- What the trials of a rule keep, along with the entry for what they give, is kept when the rule grows. -/
theorem growRounds_keeps (hg : g.WellFormed) (hI : OfTable I) (hnode : g.node? id = some node)
    (hvisible : g.isVisible id = true) {position rounds iteration k : Nat} {committed : Match}
    (htrial : ∀ u n v, u.Sound g (pending.add position id) → u.cursor = position → I u →
      node.eval (g.run depth) u = .done (n, v) → I v ∧ ∀ status, I (v.remember position id (n.withStatus status)))
    (hs : s.Sound g (pending.add position id)) (hinit : I s)
    (h : node.growRounds (g.run depth) id position rounds iteration committed s = .done (k, m, t)) :
    t.Sound g (pending.add position id) ∧ I t := by
  induction rounds generalizing iteration committed s with
  | zero => nomatch h
  | succ rounds ih =>
    obtain ⟨u, attempt, v, hu, hle, hattempt, hcase⟩ := Node.growRounds_cases h
    have husound : u.Sound g (pending.add position id) := (hs.seek hle).alike hu
    have huinit : I u := hI hinit hu.input_eq hu.memo_eq husound.cursor_le
    have hcursor : u.cursor = position := hu.cursor_eq
    have hanswered := answered_of_eval hg hnode husound hattempt
    obtain ⟨hv, hsaved⟩ := htrial u attempt v husound hcursor huinit hattempt
    rcases hcase with ⟨_, _, _, ht⟩ | ⟨_, _, w, hw, h⟩
    · have htsound := hanswered.within.sound.alike ht
      exact ⟨htsound, hI hv ht.input_eq ht.memo_eq htsound.cursor_le⟩
    · have hplaced : attempt.Placed v.input position (g.Nullable id) := by
        rw [hanswered.within.input_eq, ← hcursor]
        exact hanswered.placed
      have hremembered := hanswered.within.sound.remember hvisible (hplaced.withStatus .detected)
        fun hp => absurd (.inr ⟨rfl, rfl⟩) hp
      have hwsound := hremembered.alike hw
      exact ih hwsound (hI (hsaved .detected) hw.input_eq hw.memo_eq hwsound.cursor_le) h

/-- What the trials of a rule keep, along with the entry for what they give, is kept by its first call. -/
theorem answerFirst_keeps (hg : g.WellFormed) (hI : OfTable I) (hnode : g.node? id = some node)
    (hvisible : g.isVisible id = true) (hs : s.Sound g pending)
    (hbegin : I (s.remember s.cursor id (.placeholder s.cursor)))
    (htrial : ∀ u n v, u.Sound g (pending.add s.cursor id) → u.cursor = s.cursor → I u →
      node.eval (g.run depth) u = .done (n, v) → I v ∧ ∀ status, I (v.remember s.cursor id (n.withStatus status)))
    (h : node.answerFirst (g.run depth) id s = .done (m, t)) : I t := by
  obtain ⟨first, u, hfirst, hcase⟩ := Node.answerFirst_cases h
  have hsbegin := hs.begin hvisible
  have hanswered := answered_of_eval hg hnode hsbegin hfirst
  obtain ⟨_, hsaved⟩ := htrial _ first u hsbegin rfl hbegin hfirst
  have hplaced : first.Placed u.input s.cursor (g.Nullable id) := by
    rw [hanswered.within.input_eq]
    exact hanswered.placed
  have hremembered : ∀ status, (u.remember s.cursor id (first.withStatus status)).Sound g (pending.add s.cursor id) :=
    fun status => hanswered.within.sound.remember hvisible (hplaced.withStatus status)
      fun hp => absurd (.inr ⟨rfl, rfl⟩) hp
  rcases hcase with ⟨_, _, v, k, w, hv, hgrow, hle, ht⟩ | ⟨_, rfl, ht⟩
  · have hvsound := (hremembered .detected).alike hv
    have hvinit := hI (hsaved .detected) hv.input_eq hv.memo_eq hvsound.cursor_le
    obtain ⟨hwsound, hw⟩ := growRounds_keeps hg hI hnode hvisible htrial hvsound hvinit hgrow
    exact hI hw ht.input_eq ht.memo_eq ((hwsound.seek hle).alike ht).cursor_le
  · exact hI (hsaved .impossible) ht.input_eq ht.memo_eq ((hremembered .impossible).alike ht).cursor_le

end Grammar

end Packrat
