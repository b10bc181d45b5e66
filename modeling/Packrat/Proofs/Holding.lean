import Packrat.Proofs.Contexts
import Packrat.Proofs.Keeping
import Packrat.Proofs.Replay

/-!
# What the entries of a memo table hold

What a call can make of the memo table depends on the calls that it leads to: characters have been taken on
the way to them, or leftmost edges go there. In a session, rules that are pending have any entry that lies
where it belongs, and the entries of all other rules have some property that does not depend on what else is
in the table. Such a property is kept by every step of a call, as long as the call is pending.
-/

namespace Packrat

open Session Pattern

namespace Grammar

variable {g : Grammar} {pending : Pending} {id c r : NodeId} {position q : Nat} {s t : Session}

/-! ## Which calls lead to which -/

/-- A call of `id` at `position` may lead to one of `r` at `q`: characters have been taken in between, or else
leftmost edges lead from the one node to the other. -/
def Leads (g : Grammar) (position : Nat) (id : NodeId) (q : Nat) (r : NodeId) : Prop :=
  position < q ∨ (position = q ∧ Relation.ReflTransGen g.LeftEdge id r)

theorem Leads.refl (g : Grammar) (position : Nat) (id : NodeId) : g.Leads position id position id :=
  .inr ⟨rfl, .refl⟩

theorem Leads.trans {q' : Nat} {r' : NodeId} (h : g.Leads position id q r) (h' : g.Leads q r q' r') :
    g.Leads position id q' r' := by
  rcases h with hlt | ⟨rfl, hr⟩
  · rcases h' with hlt' | ⟨rfl, _⟩
    · exact .inl (Nat.lt_trans hlt hlt')
    · exact .inl hlt
  · rcases h' with hlt' | ⟨rfl, hr'⟩
    · exact .inl hlt'
    · exact .inr ⟨rfl, hr.trans hr'⟩

/-- Where left recursion is only direct, the calls of two rules do not lead to each other. -/
theorem Leads.antisymm (hdirect : g.DirectOnly) (hid : g.isVisible id = true) (hr : g.isVisible r = true)
    (h : g.Leads position id q r) (h' : g.Leads q r position id) : position = q ∧ id = r := by
  rcases h with hlt | ⟨rfl, hto⟩
  · rcases h' with hlt' | ⟨rfl, _⟩
    · exact absurd hlt' (Nat.lt_asymm hlt)
    · exact absurd hlt (Nat.lt_irrefl _)
  · rcases h' with hlt' | ⟨_, hback⟩
    · exact absurd hlt' (Nat.lt_irrefl _)
    · rcases Relation.reflTransGen_iff_eq_or_transGen.1 hto with heq | hto
      · exact ⟨rfl, heq.symm⟩
      · rcases Relation.reflTransGen_iff_eq_or_transGen.1 hback with heq | hback
        · exact ⟨rfl, heq⟩
        · exact ⟨rfl, hdirect id r hid hr hto hback⟩

/-- Every call that is made inside a node is one that the call of the node leads to. -/
theorem leads_of_within (ht : s.Within g pending t) (hleft : t.cursor = s.cursor → g.LeftEdge id c) :
    g.Leads s.cursor id t.cursor c := by
  rcases Nat.eq_or_lt_of_le ht.cursor_le with heq | hlt
  · exact .inr ⟨heq, .single (hleft heq.symm)⟩
  · exact .inl hlt

end Grammar

def Pending.LeadTo (g : Grammar) (pending : Pending) (position : Nat) (id : NodeId) : Prop :=
  ∀ q r, pending q r → g.Leads q r position id

theorem Pending.LeadTo.add {g : Grammar} {pending : Pending} {position : Nat} {id : NodeId}
    (h : pending.LeadTo g position id) : (pending.add position id).LeadTo g position id := by
  rintro q r (hp | ⟨rfl, rfl⟩)
  · exact h q r hp
  · exact .refl g _ _

/-- A sound session in which every pending call has an entry, and every other entry has the property `R` of
its position and its rule. -/
structure Session.Holds (g : Grammar) (R : Nat → NodeId → Match → Prop) (pending : Pending) (s : Session) :
    Prop where
  sound : s.Sound g pending
  held : ∀ {q r}, pending q r → (s.memo.get? q r).isSome
  right : ∀ {q r e}, s.memo.get? q r = some e → ¬ pending q r → R q r e

namespace Session

variable {g : Grammar} {R : Nat → NodeId → Match → Prop} {pending : Pending} {s t : Session}
  {position q : Nat} {id r : NodeId} {m : Match}

theorem Holds.of_eq (hs : s.Holds g R pending) (hinput : t.input = s.input) (hmemo : t.memo = s.memo)
    (hle : t.cursor ≤ t.length) : t.Holds g R pending where
  sound := {
    cursor_le := hle
    positions_eq := by rw [hmemo, length_eq hinput]; exact hs.sound.positions_eq
    placed := fun h => by rw [hinput]; exact hs.sound.placed (hmemo ▸ h)
    visible := fun h => hs.sound.visible (hmemo ▸ h)
    settled := fun h => hs.sound.settled (hmemo ▸ h) }
  held hp := hmemo ▸ hs.held hp
  right h hp := hs.right (hmemo ▸ h) hp

theorem Holds.alike (hs : s.Holds g R pending) (h : t.Alike s) : t.Holds g R pending :=
  hs.of_eq h.input_eq h.memo_eq (hs.sound.alike h).cursor_le

theorem Holds.remember (hs : s.Holds g R pending) (hp : pending position id) (hvisible : g.isVisible id = true)
    (hm : m.Placed s.input position (g.Nullable id)) : (s.remember position id m).Holds g R pending where
  sound := hs.sound.remember hvisible hm fun hnot => absurd hp hnot
  held := by
    intro q r hqr
    have hentry := hs.held hqr
    rw [memo_remember, MemoTable.get?_insert]
    split
    · rfl
    · exact hentry
  right := by
    intro q r e he hnot
    have hne : ¬ (q = position ∧ r = id) := by
      rintro ⟨rfl, rfl⟩
      exact hnot hp
    rw [memo_remember, MemoTable.get?_insert_of_ne hne] at he
    exact hs.right he hnot

theorem Holds.begin (hs : s.Holds g R pending) (hvisible : g.isVisible id = true)
    (hnone : s.memo.get? s.cursor id = none) :
    (s.remember s.cursor id (.placeholder s.cursor)).Holds g R (pending.add s.cursor id) where
  sound := hs.sound.begin hvisible
  held := by
    rintro q r (hp | ⟨rfl, rfl⟩)
    · exact ((MemoTable.Kept.refl s.memo).insert hnone).isSome (hs.held hp)
    · rw [memo_remember, MemoTable.get?_insert_self hs.sound.cursor_lt]
      rfl
  right := by
    intro q r e he hnot
    rw [memo_remember, MemoTable.get?_insert_of_ne fun heq => hnot (.inr heq)] at he
    exact hs.right he fun hp => hnot (.inl hp)

theorem Holds.finish (ht : t.Holds g R (pending.add position id)) (hsound : t.Sound g pending)
    (hentry : t.memo.get? position id = some m) (hm : R position id m) : t.Holds g R pending where
  sound := hsound
  held hp := ht.held (.inl hp)
  right := by
    intro q r e he hnot
    by_cases heq : q = position ∧ r = id
    · obtain ⟨rfl, rfl⟩ := heq
      obtain rfl := Option.some.inj (hentry.symm.trans he)
      exact hm
    · exact ht.right he fun hp => hp.elim hnot heq

theorem Holds.not_pending_of_none (hs : s.Holds g R pending) (hnone : s.memo.get? position id = none) :
    ¬ pending position id := by
  intro hp
  have hsome := hs.held hp
  rw [hnone] at hsome
  nomatch hsome

/-- Where left recursion is only direct, a call of a rule that is not pending does not lead to pending rules. -/
theorem Holds.not_pending (hs : s.Holds g R pending) (hdirect : g.DirectOnly)
    (hlead : pending.LeadTo g position id) (hvisible : g.isVisible id = true) (hnot : ¬ pending position id)
    (h : g.Leads position id q r) : ¬ pending q r := by
  intro hp
  obtain ⟨e, he⟩ := Option.isSome_iff_exists.1 (hs.held hp)
  obtain ⟨rfl, rfl⟩ := h.antisymm hdirect hvisible (hs.sound.visible he) (hlead q r hp)
  exact hnot hp

theorem Holds.start (g : Grammar) (R : Nat → NodeId → Match → Prop) (input : String) (options : Options) :
    (Session.start input options).Holds g R .none where
  sound := Grammar.sound_start g input options
  held hp := hp.elim
  right h := by simp [Session.start] at h

theorem Holds.forget (hs : s.Holds g R .none) (id : NodeId) : (s.forget id).Holds g R .none where
  sound := hs.sound.forget id
  held hp := hp.elim
  right he := hs.right (get?_of_forget he)

theorem Holds.ofTable (g : Grammar) (R : Nat → NodeId → Match → Prop) (pending : Pending) (input : Array Char) :
    OfTable fun s => s.Holds g R pending ∧ s.input = input := by
  intro s t hs hinput hmemo hle
  exact ⟨hs.1.of_eq hinput hmemo hle, hinput.trans hs.2⟩

/-- A rule that is found is given as it is, unless it is pending and still has its placeholder. -/
theorem Holds.found (hs : s.Holds g R pending) (hvisible : g.isVisible id = true) {memo : Match}
    (hmemo : s.memo.get? s.cursor id = some memo) {depth : Nat} (h : g.run depth id s = .done (m, t)) :
    m = (if memo.status = .possible then memo.withStatus .detected else memo) ∧
      t.memo = (if memo.status = .possible then s.memo.insert s.cursor id (memo.withStatus .detected)
        else s.memo) ∧
      t.input = s.input ∧ t.cursor = memo.stop ∧ t.Holds g R pending := by
  cases depth with
  | zero => nomatch h
  | succ depth =>
    have hplaced := hs.sound.placed hmemo
    obtain ⟨t', ht', hinput, hcursor, htable⟩ := Grammar.run_of_remembered depth hvisible hmemo hplaced
    obtain ⟨rfl, rfl⟩ := Prod.mk.inj (Run.done.inj (h.symm.trans ht'))
    have hle : t.cursor ≤ t.length := by
      rw [hcursor, length_eq hinput]
      exact hplaced.stop_le
    refine ⟨rfl, htable, hinput, hcursor, ?_⟩
    split at htable
    · rename_i hpossible
      have hp : pending s.cursor id := by
        by_contra hp
        exact (hs.sound.settled hmemo hp).status_ne hpossible
      exact (hs.remember hp hvisible (hplaced.withStatus .detected)).of_eq hinput htable hle
    · exact hs.of_eq hinput htable hle

end Session

end Packrat
