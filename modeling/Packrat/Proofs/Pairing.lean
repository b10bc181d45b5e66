import Packrat.Proofs.Computed
import Packrat.Proofs.Frozen

/-!
# Two runs of one call

Two sessions over one input stand at the same place, with different things in their memo tables. Whatever the
one finds there has been computed, and whatever the other finds is the only thing that can be computed. Of the
rules that can be met from there, the same are pending in both, with the same entries. Then both runs of a
call give the same match if both of them end, and they leave two such sessions behind.
-/

namespace Packrat

open Session Pattern

namespace Pattern

def ended (call : Evaluator) : Evaluator := fun c s =>
  match call c s with
  | .exhausted => .fault (.unknownNode c) s
  | answer => answer

end Pattern

/-- A match that ends makes no call that meets its bound. -/
theorem Node.eval_ended {call : Evaluator} {node : Node} {s t : Session} {m : Match}
    (h : node.eval call s = .done (m, t)) : node.eval (ended call) s = .done (m, t) := by
  have hcall : ∀ c ∈ node.pattern.components,
      Follows Eq (fun _ => True) False Eq (call c) (ended call c) := by
    intro c _ u n v hu
    refine ⟨fun _ => trivial, ?_⟩
    rintro _ rfl _
    unfold ended
    rw [hu]
    exact ⟨rfl, rfl⟩
  have hfollow := (Node.eval_follows .eq .eq node hcall s m t h).2 s rfl trivial
  obtain ⟨⟨n, u⟩, hn, rfl, rfl⟩ := hfollow.exists_done
  exact hn

/-- Every first call of the rule at the position gives this match, provided that it ends. -/
def Grammar.Certain (g : Grammar) (input : Array Char) (position : Nat) (id : NodeId) (m : Match) : Prop :=
  ∀ n, g.FirstCall (g.Computed input) input position id n → n = m

/-- Of the calls that a call of `id` at `position` leads to, the same are pending in two sessions, and all that
is pending may have led to that call. -/
structure Pending.Paired (g : Grammar) (position : Nat) (id : NodeId) (pending pending' : Pending) : Prop where
  lead : pending.LeadTo g position id
  lead' : pending'.LeadTo g position id
  iff : ∀ {q r}, g.Leads position id q r → (pending q r ↔ pending' q r)

/-- Two sessions at the same place of an input. What is pending and can be met by a call of `id` at `position`
has the same entries in both. All other entries are certain in the one, and computed in the other. -/
structure Session.Paired (g : Grammar) (input : Array Char) (pending pending' : Pending) (position : Nat)
    (id : NodeId) (s s' : Session) : Prop where
  certain : s.Holds g (g.Certain input) pending
  computed : s'.Holds g (g.Computed input) pending'
  input_eq : s.input = input
  input_eq' : s'.input = input
  cursor_eq : s.cursor = s'.cursor
  entry_eq : ∀ {q r}, g.Leads position id q r → pending q r → s.memo.get? q r = s'.memo.get? q r

variable {g : Grammar} {input : Array Char} {pending pending' : Pending} {position q : Nat} {id c r : NodeId}
  {node : Node} {depth depth' : Nat} {s s' t t' u u' : Session} {m m' n : Match}

namespace Pending

theorem Paired.leads (h : Paired g position id pending pending') (hleads : g.Leads position id q r) :
    Paired g q r pending pending' where
  lead q' r' hp := (h.lead q' r' hp).trans hleads
  lead' q' r' hp := (h.lead' q' r' hp).trans hleads
  iff hl := h.iff (hleads.trans hl)

theorem Paired.add (h : Paired g position id pending pending') :
    Paired g position id (pending.add position id) (pending'.add position id) where
  lead := h.lead.add
  lead' := h.lead'.add
  iff hl := or_congr (h.iff hl) Iff.rfl

end Pending

namespace Session

theorem Paired.length_eq (h : Paired g input pending pending' position id s s') : s.length = s'.length :=
  Session.length_eq (h.input_eq.trans h.input_eq'.symm)

theorem Paired.of_eq (h : Paired g input pending pending' position id s s') (hinput : t.input = s.input)
    (hmemo : t.memo = s.memo) (hinput' : t'.input = s'.input) (hmemo' : t'.memo = s'.memo)
    (hcursor : t.cursor = t'.cursor) (hle : t.cursor ≤ t.length) :
    Paired g input pending pending' position id t t' where
  certain := h.certain.of_eq hinput hmemo hle
  computed := by
    apply h.computed.of_eq hinput' hmemo'
    rw [← hcursor, Session.length_eq hinput', ← h.length_eq, ← Session.length_eq hinput]
    exact hle
  input_eq := hinput.trans h.input_eq
  input_eq' := hinput'.trans h.input_eq'
  cursor_eq := hcursor
  entry_eq hl hp := by rw [hmemo, hmemo', h.entry_eq hl hp]

theorem Paired.alike (h : Paired g input pending pending' position id s s') (ht : t.Alike s) (ht' : t'.Alike s') :
    Paired g input pending pending' position id t t' := by
  apply h.of_eq ht.input_eq ht.memo_eq ht'.input_eq ht'.memo_eq
  · rw [ht.cursor_eq, ht'.cursor_eq, h.cursor_eq]
  · exact (h.certain.sound.alike ht).cursor_le

theorem Paired.seek (h : Paired g input pending pending' position id s s') {place : Nat} (hle : place ≤ s.length) :
    Paired g input pending pending' position id (s.seek place) (s'.seek place) :=
  h.of_eq rfl rfl rfl rfl rfl hle

theorem Paired.congruence (g : Grammar) (input : Array Char) (pending pending' : Pending) (position : Nat)
    (id : NodeId) : Congruence (Paired g input pending pending' position id) where
  input_eq h := h.input_eq.trans h.input_eq'.symm
  cursor_eq h := h.cursor_eq
  seek hle h := h.seek hle
  emit _ _ _ _ h := h.alike (alike_emit ..) (alike_emit ..)
  noteFailure _ h := h.alike ⟨rfl, rfl, rfl⟩ ⟨rfl, rfl, rfl⟩
  restoreFailure h _ := h.alike ⟨rfl, rfl, rfl⟩ ⟨rfl, rfl, rfl⟩

theorem Paired.leads (h : Paired g input pending pending' position id s s') (hleads : g.Leads position id q r) :
    Paired g input pending pending' q r s s' :=
  { h with entry_eq := fun hl hp => h.entry_eq (hleads.trans hl) hp }

/-- Entries that are written in both sessions for a pending rule stay the same in both. -/
theorem Paired.remember (h : Paired g input pending pending' position id s s')
    (hp : Pending.Paired g position id pending pending') (hpending : pending position id)
    (hvisible : g.isVisible id = true) (hm : m.Placed input position (g.Nullable id)) :
    Paired g input pending pending' position id (s.remember position id m) (s'.remember position id m) where
  certain := h.certain.remember hpending hvisible (h.input_eq ▸ hm)
  computed := h.computed.remember ((hp.iff (.refl ..)).1 hpending) hvisible (h.input_eq' ▸ hm)
  input_eq := h.input_eq
  input_eq' := h.input_eq'
  cursor_eq := h.cursor_eq
  entry_eq hl hqr := by
    rw [memo_remember, memo_remember, MemoTable.get?_insert, MemoTable.get?_insert,
      h.certain.sound.positions_eq, h.computed.sound.positions_eq, h.length_eq, h.entry_eq hl hqr]

theorem Paired.begin (h : Paired g input pending pending' s.cursor id s s') (hvisible : g.isVisible id = true)
    (hnone : s.memo.get? s.cursor id = none) (hnone' : s'.memo.get? s.cursor id = none) :
    Paired g input (pending.add s.cursor id) (pending'.add s.cursor id) s.cursor id
      (s.remember s.cursor id (.placeholder s.cursor)) (s'.remember s.cursor id (.placeholder s.cursor)) where
  certain := h.certain.begin hvisible hnone
  computed := by
    rw [h.cursor_eq] at hnone' ⊢
    exact h.computed.begin hvisible hnone'
  input_eq := h.input_eq
  input_eq' := h.input_eq'
  cursor_eq := h.cursor_eq
  entry_eq {q r} hl hqr := by
    by_cases heq : q = s.cursor ∧ r = id
    · obtain ⟨rfl, rfl⟩ := heq
      have hpos' : s.cursor < s'.memo.positions := h.cursor_eq ▸ h.computed.sound.cursor_lt
      rw [memo_remember, memo_remember, MemoTable.get?_insert_self h.certain.sound.cursor_lt,
        MemoTable.get?_insert_self hpos']
    · rw [memo_remember, memo_remember, MemoTable.get?_insert_of_ne heq, MemoTable.get?_insert_of_ne heq]
      exact h.entry_eq hl (hqr.resolve_right heq)

/-- A call inside of another one changes no entries but those that it leads to, in either session. -/
theorem Paired.within (hg : g.WellFormed) (h : Paired g input pending pending' position id u u')
    (ht : Paired g input pending pending' u.cursor c t t')
    (hrun : g.run depth c u = .done (m, t)) (hrun' : g.run depth' c u' = .done (m', t')) :
    Paired g input pending pending' position id t t' :=
  { ht with
    entry_eq := by
      intro q r hl hqr
      by_cases hleads : g.Leads u.cursor c q r
      · exact ht.entry_eq hleads hqr
      · rw [Grammar.run_frame hg h.certain.sound hleads hrun,
          Grammar.run_frame hg h.computed.sound (h.cursor_eq ▸ hleads) hrun']
        exact h.entry_eq hl hqr }

end Session

namespace Grammar

def RunsPaired (g : Grammar) (input : Array Char) (depth : Nat) : Prop :=
  ∀ pending pending' id s s' depth' m m' t t', Pending.Paired g s.cursor id pending pending' →
    Session.Paired g input pending pending' s.cursor id s s' → g.run depth id s = .done (m, t) →
      g.run depth' id s' = .done (m', t') → m = m' ∧ Session.Paired g input pending pending' s.cursor id t t'

theorem call_paired (hg : g.WellFormed) (hrun : g.RunsPaired input depth)
    (hp : Pending.Paired g s.cursor id pending pending') (depth' : Nat) (c : NodeId) :
    Follows (Session.Paired g input pending pending' s.cursor id) (fun _ => True) True Eq
      (confined g pending (g.run depth) id s c) (ended (g.run depth') c) := by
  intro u n v h
  obtain ⟨hcan, h⟩ := confined_eq_done h
  have hleads := leads_of_within hcan.1 hcan.2
  refine ⟨fun _ => trivial, fun u' huu' _ => ?_⟩
  unfold ended
  cases h' : g.run depth' c u' with
  | done answer =>
    obtain ⟨n', v'⟩ := answer
    obtain ⟨rfl, hvv'⟩ := hrun pending pending' c u u' depth' n n' v v' (hp.leads hleads) (huu'.leads hleads) h h'
    exact ⟨rfl, huu'.within hg hvv' h h'⟩
  | fault e u => trivial
  | exhausted => trivial

/-- A pending rule has the same entry in both sessions, and is marked in both if it has to be. -/
theorem found_paired (hvisible : g.isVisible id = true)
    (hs : Session.Paired g input pending pending' s.cursor id s s') (hpending : pending s.cursor id)
    (h : g.run depth id s = .done (m, t)) (h' : g.run depth' id s' = .done (m', t')) :
    m = m' ∧ Session.Paired g input pending pending' s.cursor id t t' := by
  obtain ⟨memo, hmemo⟩ := Option.isSome_iff_exists.1 (hs.certain.held hpending)
  have hmemo' : s'.memo.get? s'.cursor id = some memo := by
    rw [← hs.cursor_eq, ← hs.entry_eq (.refl ..) hpending]
    exact hmemo
  obtain ⟨hm, htable, hinput, hcursor, ht⟩ := hs.certain.found hvisible hmemo h
  obtain ⟨hm', htable', hinput', hcursor', ht'⟩ := hs.computed.found hvisible hmemo' h'
  refine ⟨hm.trans hm'.symm, ht, ht', hinput.trans hs.input_eq, hinput'.trans hs.input_eq',
    hcursor.trans hcursor'.symm, ?_⟩
  intro q r hl hqr
  rw [htable, htable', ← hs.cursor_eq]
  split
  · rw [MemoTable.get?_insert, MemoTable.get?_insert, hs.certain.sound.positions_eq,
      hs.computed.sound.positions_eq, hs.length_eq, hs.entry_eq hl hqr]
  · exact hs.entry_eq hl hqr

theorem eval_paired (hg : g.WellFormed) (hrun : g.RunsPaired input depth) (hnode : g.node? id = some node)
    (hp : Pending.Paired g position id pending pending')
    (hs : Session.Paired g input pending pending' position id s s') (hcursor : s.cursor = position)
    (h : node.eval (g.run depth) s = .done (m, t)) (h' : node.eval (g.run depth') s' = .done (m', t')) :
    m = m' ∧ Session.Paired g input pending pending' position id t t' := by
  subst hcursor
  have hsound := hs.certain.sound
  have hconfined := Node.eval_confined hnode hsound (run_answersInside hg hnode depth s) h
  have hended := Node.eval_ended h'
  have hfollow := (Node.eval_follows (Session.Paired.congruence g input pending pending' s.cursor id) .eq node
    (fun c _ => call_paired hg hrun hp depth' c) s m t hconfined).2 s' hs trivial
  exact hfollow.of_done hended

/-- Both grow loops accept and reject the same attempts. -/
theorem growRounds_paired (hg : g.WellFormed) (hrun : g.RunsPaired input depth) (hnode : g.node? id = some node)
    (hvisible : g.isVisible id = true) (hp : Pending.Paired g position id pending pending')
    (hpending : pending position id) {rounds iteration k k' : Nat} {committed : Match}
    (hs : Session.Paired g input pending pending' position id s s')
    (h : node.growRounds (g.run depth) id position rounds iteration committed s = .done (k, m, t))
    (h' : node.growRounds (g.run depth') id position rounds iteration committed s' = .done (k', m', t')) :
    m = m' ∧ Session.Paired g input pending pending' position id t t' := by
  induction rounds generalizing iteration committed s s' with
  | zero => nomatch h
  | succ rounds ih =>
    obtain ⟨u, attempt, v, hu, hle, hattempt, hcase⟩ := Node.growRounds_cases h
    obtain ⟨u', attempt', v', hu', _, hattempt', hcase'⟩ := Node.growRounds_cases h'
    have hcursor : u.cursor = position := hu.cursor_eq
    have huu' := (hs.seek hle).alike hu hu'
    obtain ⟨rfl, hvv'⟩ := eval_paired hg hrun hnode hp huu' hcursor hattempt hattempt'
    -- the attempts are the same, so neither loop goes on while the other one stops
    rcases hcase with ⟨hstill, _, rfl, ht⟩ | ⟨hsuccess, hfurther, w, hw, h⟩
    · rcases hcase' with ⟨_, _, rfl, ht'⟩ | ⟨hsuccess, hfurther, _⟩
      · exact ⟨rfl, hvv'.alike ht ht'⟩
      · have hle := hstill hsuccess
        omega
    · rcases hcase' with ⟨hstill, _⟩ | ⟨_, _, w', hw', h'⟩
      · have hle := hstill hsuccess
        omega
      · have hplaced := (answered_of_eval hg hnode huu'.certain.sound hattempt).placed
        rw [huu'.input_eq, hcursor] at hplaced
        have hremembered := hvv'.remember hp hpending hvisible (hplaced.withStatus .detected)
        exact ih (hremembered.alike hw hw') h h'

theorem answerFirst_paired (hg : g.WellFormed) (hrun : g.RunsPaired input depth) (hnode : g.node? id = some node)
    (hvisible : g.isVisible id = true) (hp : Pending.Paired g s.cursor id pending pending')
    (hs : Session.Paired g input pending pending' s.cursor id s s') (hnone : s.memo.get? s.cursor id = none)
    (hnone' : s'.memo.get? s.cursor id = none) (h : node.answerFirst (g.run depth) id s = .done (m, t))
    (h' : node.answerFirst (g.run depth') id s' = .done (m', t')) :
    m = m' ∧ t.Holds g (g.Certain input) (pending.add s.cursor id) := by
  obtain ⟨first, u, hfirst, hcase⟩ := Node.answerFirst_cases h
  obtain ⟨first', u', hfirst', hcase'⟩ := Node.answerFirst_cases h'
  rw [← hs.cursor_eq] at hfirst' hcase'
  have hbegin := hs.begin hvisible hnone hnone'
  obtain ⟨rfl, huu'⟩ := eval_paired hg hrun hnode hp.add hbegin rfl hfirst hfirst'
  have hpending : pending.add s.cursor id s.cursor id := .inr ⟨rfl, rfl⟩
  have hplaced : first.Placed input s.cursor (g.Nullable id) := by
    have hanswered := answered_of_eval hg hnode hbegin.certain.sound hfirst
    exact hs.input_eq ▸ hanswered.placed
  have hsaved : ∀ status, Session.Paired g input (pending.add s.cursor id) (pending'.add s.cursor id) s.cursor id
      (u.remember s.cursor id (first.withStatus status)) (u'.remember s.cursor id (first.withStatus status)) :=
    fun status => huu'.remember hp.add hpending hvisible (hplaced.withStatus status)
  have hmark : u.memo.get? s.cursor id = u'.memo.get? s.cursor id := huu'.entry_eq (.refl ..) hpending
  rcases hcase with ⟨hmarked, hsuccess, v, k, w, hv, hgrow, hle, ht⟩ | ⟨hgrows, rfl, ht⟩
  · rcases hcase' with ⟨_, _, v', k', w', hv', hgrow', _, _⟩ | ⟨hgrows, _, _⟩
    · have hvv' := (hsaved .detected).alike hv hv'
      rw [← hvv'.length_eq] at hgrow'
      obtain ⟨rfl, hww'⟩ := growRounds_paired hg hrun hnode hvisible hp.add hpending hvv' hgrow hgrow'
      exact ⟨rfl, (hww'.seek hle).certain.alike ht⟩
    · rw [hgrows (hmark ▸ hmarked)] at hsuccess
      nomatch hsuccess
  · rcases hcase' with ⟨hmarked, hsuccess, _⟩ | ⟨_, rfl, _⟩
    · rw [hgrows (hmark ▸ hmarked)] at hsuccess
      nomatch hsuccess
    · exact ⟨rfl, (hsaved .impossible).certain.alike ht⟩

end Grammar

end Packrat
