import Packrat.Proofs.Holding

/-!
# Computed entries

An entry of the memo table has been computed if it is the answer to a first call of its rule, in a session in
which all that could be found in the table had been computed before. Nothing else ever gets into the table,
apart from what pending rules keep there.
-/

namespace Packrat

open Session

namespace Grammar

/-- The match is an answer to a first call of the rule at the position of the input. What the table holds for
rules that are not pending has the property `R`, and all pending rules may have led to the call. -/
def FirstCall (g : Grammar) (R : Nat → NodeId → Match → Prop) (input : Array Char) (position : Nat) (id : NodeId)
    (m : Match) : Prop :=
  ∃ pending depth s t, s.Holds g R pending ∧ s.input = input ∧ s.cursor = position ∧
    pending.LeadTo g position id ∧ s.memo.get? position id = none ∧ g.run depth id s = .done (m, t)

/-- The least property that the answers to first calls have, given that the entries of the table have it. -/
inductive Computed (g : Grammar) (input : Array Char) : Nat → NodeId → Match → Prop
  | first {pending : Pending} {depth : Nat} {id : NodeId} {s t : Session} {m : Match} (hs : s.Sound g pending)
      (hheld : ∀ q r, pending q r → (s.memo.get? q r).isSome)
      (hright : ∀ q r e, s.memo.get? q r = some e → ¬ pending q r → Computed g input q r e)
      (hinput : s.input = input) (hlead : pending.LeadTo g s.cursor id)
      (hnone : s.memo.get? s.cursor id = none) (h : g.run depth id s = .done (m, t)) :
      Computed g input s.cursor id m

variable {g : Grammar} {pending : Pending} {input : Array Char} {position depth : Nat} {id : NodeId}
  {s t : Session} {m : Match}

theorem computed_iff : g.Computed input position id m ↔ g.FirstCall (g.Computed input) input position id m := by
  constructor
  · intro h
    cases h with
    | first hs hheld hright hinput hlead hnone h =>
      exact ⟨_, _, _, _, ⟨hs, hheld _ _, hright _ _ _⟩, hinput, rfl, hlead, hnone, h⟩
  · rintro ⟨pending, depth, s, t, hs, hinput, rfl, hlead, hnone, h⟩
    exact .first hs.sound (fun _ _ => hs.held) (fun _ _ _ => hs.right) hinput hlead hnone h

theorem eval_holds (hg : g.WellFormed) {R : Nat → NodeId → Match → Prop} {node : Node}
    (hcall : ∀ c u n v, u.Holds g R pending → u.input = input → pending.LeadTo g u.cursor c →
      g.run depth c u = .done (n, v) → v.Holds g R pending)
    (hnode : g.node? id = some node) (hs : s.Holds g R pending) (hinput : s.input = input)
    (hlead : pending.LeadTo g s.cursor id) (h : node.eval (g.run depth) s = .done (m, t)) :
    t.Holds g R pending := by
  have hkeeps : t.Holds g R pending ∧ t.input = input := by
    apply eval_keeps hg (Holds.ofTable g R pending input) hnode hs.sound _ ⟨hs, hinput⟩ h
    intro c u n v hu hleft hheld hrun
    have hlead' : pending.LeadTo g u.cursor c := fun q r hp => (hlead q r hp).trans (leads_of_within hu hleft)
    have hanswered := (answered_of_run hg hheld.1.sound hrun).2
    exact ⟨hcall c u n v hheld.1 hheld.2 hlead' hrun, hanswered.within.input_eq.trans hheld.2⟩
  exact hkeeps.1

theorem answerFirst_holds (hg : g.WellFormed) {R : Nat → NodeId → Match → Prop} {node : Node}
    (hcall : ∀ c u n v, u.Holds g R (pending.add s.cursor id) → u.input = input →
      (pending.add s.cursor id).LeadTo g u.cursor c → g.run depth c u = .done (n, v) →
        v.Holds g R (pending.add s.cursor id))
    (hnode : g.node? id = some node) (hvisible : g.isVisible id = true) (hs : s.Holds g R pending)
    (hinput : s.input = input) (hlead : pending.LeadTo g s.cursor id) (hnone : s.memo.get? s.cursor id = none)
    (h : node.answerFirst (g.run depth) id s = .done (m, t)) : t.Holds g R (pending.add s.cursor id) := by
  have hkeeps : t.Holds g R (pending.add s.cursor id) ∧ t.input = input := by
    apply answerFirst_keeps hg (Holds.ofTable g R (pending.add s.cursor id) input) hnode hvisible hs.sound
      ⟨hs.begin hvisible hnone, hinput⟩ _ h
    intro u n v _ hcursor hu hv
    have hanswered := answered_of_eval hg hnode hu.1.sound hv
    have hplaced : n.Placed v.input s.cursor (g.Nullable id) := by
      rw [hanswered.within.input_eq]
      exact hcursor ▸ hanswered.placed
    have hkept := eval_holds hg hcall hnode hu.1 hu.2 (hcursor ▸ hlead.add) hv
    have hvinput := hanswered.within.input_eq.trans hu.2
    exact ⟨⟨hkept, hvinput⟩, fun status =>
      ⟨hkept.remember (.inr ⟨rfl, rfl⟩) hvisible (hplaced.withStatus status), hvinput⟩⟩
  exact hkeeps.1

/-- Runs put only computed entries into the table. -/
theorem run_computes (hg : g.WellFormed) (hs : s.Holds g (g.Computed input) pending) (hinput : s.input = input)
    (hlead : pending.LeadTo g s.cursor id) (h : g.run depth id s = .done (m, t)) :
    t.Holds g (g.Computed input) pending := by
  induction depth generalizing pending id s m t with
  | zero => nomatch h
  | succ depth ih =>
    obtain ⟨hid, hanswered⟩ := answered_of_run hg hs.sound h
    obtain ⟨node, hnode⟩ := exists_node hid
    by_cases hvisible : g.isVisible id = true
    · cases hmemo : s.memo.get? s.cursor id with
      | some memo => exact (hs.found hvisible hmemo h).2.2.2.2
      | none =>
        have hentry := (run_remembered hvisible hs.sound.cursor_lt h).1
        have hcomputed : g.Computed input s.cursor id m :=
          computed_iff.2 ⟨pending, depth + 1, s, t, hs, hinput, rfl, hlead, hmemo, h⟩
        obtain ⟨s', hs', hfirst⟩ := run_of_not_remembered depth hnode ((isVisible_iff hnode).1 hvisible) hmemo
        rw [hfirst] at h
        have ht := answerFirst_holds hg (fun c u n v hu hinput hlead hv => ih hu hinput hlead hv) hnode hvisible
          (hs.alike hs') (hs'.input_eq.trans hinput) (hs'.cursor_eq ▸ hlead)
          (hs'.cursor_eq ▸ hs'.memo_eq ▸ hmemo) h
        rw [hs'.cursor_eq] at ht
        exact ht.finish hanswered.within.sound hentry hcomputed
    · rw [run_of_hidden hnode ((not_visible_iff hnode).1 hvisible)] at h
      exact eval_holds hg (fun c u n v hu hinput hlead hv => ih hu hinput hlead hv) hnode hs hinput hlead h

/-- What a run gives for a rule that is not pending is the answer to a first call, if not its own then that by
which the entry has been computed. -/
theorem firstCall_of_run (hs : s.Holds g (g.Computed input) pending) (hinput : s.input = input)
    (hlead : pending.LeadTo g s.cursor id) (hvisible : g.isVisible id = true) (hnot : ¬ pending s.cursor id)
    (h : g.run depth id s = .done (m, t)) : g.FirstCall (g.Computed input) input s.cursor id m := by
  cases hmemo : s.memo.get? s.cursor id with
  | some memo =>
    have hm := (hs.found hvisible hmemo h).1
    rw [if_neg (hs.sound.settled hmemo hnot).status_ne] at hm
    exact computed_iff.1 (hm ▸ hs.right hmemo hnot)
  | none => exact ⟨pending, depth, s, t, hs, hinput, rfl, hlead, hmemo, h⟩

end Grammar

end Packrat
