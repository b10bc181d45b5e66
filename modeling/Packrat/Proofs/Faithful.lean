import Packrat.Proofs.Holding
import Packrat.Proofs.Meaning

/-!
# Memo tables that are faithful to the meanings

An entry of the memo table may be used wherever the rule is called again at its position, and it was made
while other rules were pending and had only placeholders or seeds to show. It is nevertheless what the rule
means if none of those rules could be met while the entry was made, and this is so as long as left recursion
is only direct: a pending rule that could be met would lead to the rule of the entry and be led to by it.

The pending rules themselves are matched against the seeds of the meaning. A placeholder that nobody has asked
for is no seed at all: the calls that have been made would have gone the same way with any other answer in its
place. So a meaning is compared with a run by way of the table that the run leaves behind.
-/

namespace Packrat

open Session Pattern

/-! ## Seeds and entries -/

namespace Seeds

variable {g : Grammar} {pending : Pending} {position q : Nat} {id r : NodeId} {seeds : Seeds}
  {table table' : MemoTable} {seed : Match}

def Clear (g : Grammar) (position : Nat) (id : NodeId) (seeds : Seeds) : Prop :=
  ∀ q r, g.Leads position id q r → seeds q r = .none

/-- The seeds that a call of `id` at `position` may meet are those of pending rules, and every pending rule
that has been asked for has its entry for a seed. -/
structure Mirror (g : Grammar) (pending : Pending) (position : Nat) (id : NodeId) (seeds : Seeds)
    (table : MemoTable) : Prop where
  eq_none : ∀ {q r}, g.Leads position id q r → ¬ pending q r → seeds q r = .none
  eq_some : ∀ {q r e}, g.Leads position id q r → pending q r → table.get? q r = some e →
    e.status ≠ .possible → ∃ seed, seeds q r = some seed ∧ e.Similar seed

theorem Mirror.of_kept (h : seeds.Mirror g pending position id table') (hkept : table.Kept table') :
    seeds.Mirror g pending position id table where
  eq_none := h.eq_none
  eq_some hlead hp he hstatus := h.eq_some hlead hp (hkept.get? he hstatus) hstatus

theorem Mirror.leads (h : seeds.Mirror g pending position id table) (hlead : g.Leads position id q r) :
    seeds.Mirror g pending q r table where
  eq_none hlead' := h.eq_none (hlead.trans hlead')
  eq_some hlead' := h.eq_some (hlead.trans hlead')

open Classical in
theorem exists_mirror (g : Grammar) (pending : Pending) (position : Nat) (id : NodeId) (table : MemoTable) :
    ∃ seeds : Seeds, seeds.Mirror g pending position id table := by
  refine ⟨fun q r => if pending q r then table.get? q r else .none, ?_, ?_⟩
  · intro q r _ hp
    exact if_neg hp
  · intro q r e _ hp he _
    exact ⟨e, (if_pos hp).trans he, .refl e⟩

/-- While a rule is being evaluated it is a pending one, with a seed of its own. -/
theorem Mirror.set (h : seeds.Mirror g pending position id table') (hnot : ¬ pending position id)
    (hkept : (table.erase position id).Kept table')
    (hentry : ∀ e, table.get? position id = some e → e.status ≠ .possible → e.Similar seed) :
    (seeds.set position id seed).Mirror g (pending.add position id) position id table where
  eq_none := by
    intro q r hlead hp
    rw [set_of_ne fun heq => hp (.inr heq)]
    exact h.eq_none hlead fun hp' => hp (.inl hp')
  eq_some := by
    intro q r e hlead hp he hstatus
    by_cases heq : q = position ∧ r = id
    · obtain ⟨rfl, rfl⟩ := heq
      exact ⟨seed, set_self .., hentry e he hstatus⟩
    · rw [set_of_ne heq]
      refine h.eq_some hlead (hp.resolve_right heq) (hkept.get? ?_ hstatus) hstatus
      rw [MemoTable.get?_erase, if_neg heq]
      exact he

end Seeds

theorem MemoTable.kept_of_erase (table : MemoTable) (position : Nat) (id : NodeId) :
    (table.erase position id).Kept table := by
  intro q r e he
  rw [MemoTable.get?_erase] at he
  split at he
  · nomatch he
  · exact .inl he

/-- A sound session in which every pending call has an entry, and every other entry is what its rule means
wherever no seed is met. -/
structure Session.Faithful (g : Grammar) (pending : Pending) (s : Session) : Prop where
  sound : s.Sound g pending
  held : ∀ {q r}, pending q r → (s.memo.get? q r).isSome
  means : ∀ {q r e}, s.memo.get? q r = some e → ¬ pending q r → ∀ seeds : Seeds, seeds.Clear g q r →
    g.Means seeds r (s.seek q) e

namespace Session

variable {g : Grammar} {pending : Pending} {s t u : Session} {position q : Nat} {id r : NodeId} {m : Match}

/-- Faithful sessions are those whose entries have a property that is the same for all sessions over one input. -/
theorem faithful_iff (hinput : s.input = u.input) : s.Faithful g pending ↔
    s.Holds g (fun q r e => ∀ seeds : Seeds, seeds.Clear g q r → g.Means seeds r (u.seek q) e) pending := by
  constructor
  · intro hs
    exact ⟨hs.sound, hs.held, fun he hp seeds hclear => (hs.means he hp seeds hclear).beside ⟨hinput, rfl⟩⟩
  · intro hs
    exact ⟨hs.sound, hs.held, fun he hp seeds hclear => (hs.right he hp seeds hclear).beside ⟨hinput.symm, rfl⟩⟩

theorem Faithful.of_eq (hs : s.Faithful g pending) (hinput : t.input = s.input) (hmemo : t.memo = s.memo)
    (hle : t.cursor ≤ t.length) : t.Faithful g pending :=
  (faithful_iff hinput).2 (((faithful_iff rfl).1 hs).of_eq hinput hmemo hle)

theorem Faithful.remember (hs : s.Faithful g pending) (hp : pending position id)
    (hvisible : g.isVisible id = true) (hm : m.Placed s.input position (g.Nullable id)) :
    (s.remember position id m).Faithful g pending :=
  (faithful_iff (input_remember s position id m)).2 (((faithful_iff rfl).1 hs).remember hp hvisible hm)

theorem Faithful.alike (hs : s.Faithful g pending) (h : t.Alike s) : t.Faithful g pending :=
  hs.of_eq h.input_eq h.memo_eq (hs.sound.alike h).cursor_le

theorem Faithful.begin (hs : s.Faithful g pending) (hvisible : g.isVisible id = true)
    (hnone : s.memo.get? s.cursor id = none) :
    (s.remember s.cursor id (.placeholder s.cursor)).Faithful g (pending.add s.cursor id) :=
  (faithful_iff (input_remember ..)).2 (((faithful_iff rfl).1 hs).begin hvisible hnone)

theorem Faithful.finish (ht : t.Faithful g (pending.add position id)) (hsound : t.Sound g pending)
    (hentry : t.memo.get? position id = some m)
    (hmeans : ∀ seeds : Seeds, seeds.Clear g position id → g.Means seeds id (t.seek position) m) :
    t.Faithful g pending :=
  (faithful_iff rfl).2 (((faithful_iff rfl).1 ht).finish hsound hentry hmeans)

theorem Faithful.not_pending_of_none (hs : s.Faithful g pending) (hnone : s.memo.get? position id = none) :
    ¬ pending position id :=
  ((faithful_iff rfl).1 hs).not_pending_of_none hnone

/-- Where left recursion is only direct, a call of a rule that is not pending does not lead to pending rules. -/
theorem Faithful.not_pending (hs : s.Faithful g pending) (hdirect : g.DirectOnly)
    (hlead : pending.LeadTo g position id) (hvisible : g.isVisible id = true) (hnot : ¬ pending position id)
    (h : g.Leads position id q r) : ¬ pending q r :=
  ((faithful_iff rfl).1 hs).not_pending hdirect hlead hvisible hnot h

structure Tracks (g : Grammar) (pending : Pending) (s t : Session) : Prop extends Beside s t where
  faithful : s.Faithful g pending

theorem Tracks.congruence (g : Grammar) (pending : Pending) : Congruence (Tracks g pending) where
  input_eq h := h.input_eq
  cursor_eq h := h.cursor_eq
  seek hle h := ⟨Beside.congruence.seek hle h.toBeside, h.faithful.of_eq rfl rfl hle⟩
  emit kind label start stop h := {
    toBeside := Beside.congruence.emit kind label start stop h.toBeside
    faithful := h.faithful.alike (alike_emit ..) }
  noteFailure position h := {
    toBeside := Beside.congruence.noteFailure position h.toBeside
    faithful := h.faithful.of_eq rfl rfl h.faithful.sound.cursor_le }
  restoreFailure h h₀ := {
    toBeside := Beside.congruence.restoreFailure h.toBeside h₀.toBeside
    faithful := h.faithful.of_eq rfl rfl h.faithful.sound.cursor_le }

end Session

end Packrat
