import Packrat.Proofs.CallSteps
import Packrat.Proofs.Yields

/-!
# How far a rule can grow

Whatever the memo table holds, matching does not go past the end of the input: every move of the cursor
is checked. So each attempt of a grow loop that is accepted is longer than the last one by at least one
character, and no longer than what is left of the input.
-/

namespace Packrat

/-- A call in `s` that ended with `m` and in `t` has not gone past the end of the input. -/
structure Session.Contains (s : Session) (m : Match) (t : Session) : Prop where
  input_eq : t.input = s.input
  cursor_le : t.cursor ≤ s.length
  stop_le : m.success = true → m.stop ≤ s.length

def Contained (x : Session → Answer) : Prop :=
  ∀ s : Session, s.cursor ≤ s.length → (x s).Yields True True fun a => s.Contains a.1 a.2

variable {call : Evaluator} {s t : Session} {m : Match}

theorem contained_iff {x : Session → Answer} :
    Contained x ↔ ∀ s m t, s.cursor ≤ s.length → x s = .done (m, t) → s.Contains m t := by
  constructor
  · intro h s m t hs hx
    exact (h s hs).of_done hx
  · intro h s hs
    cases hx : x s with
    | done a => exact h s a.1 a.2 hs hx
    | fault e s => trivial
    | exhausted => trivial

namespace Session

theorem moveToR_yields (s : Session) (position : Nat) :
    (s.moveToR position).Yields True True fun t => position ≤ s.length ∧ t = s.seek position := by
  cases h : s.moveToR position with
  | done t => exact moveToR_eq_done_iff.1 h
  | fault e s => trivial
  | exhausted => trivial

theorem Contains.fail (position : Nat) (hinput : t.input = s.input) (hcursor : t.cursor ≤ s.length) :
    s.Contains (.fail position) t :=
  ⟨hinput, hcursor, fun h => by simp at h⟩

theorem Contains.alike {u : Session} (h : s.Contains m t) (hu : u.Alike t) : s.Contains m u where
  input_eq := hu.input_eq.trans h.input_eq
  cursor_le := hu.cursor_eq ▸ h.cursor_le
  stop_le := h.stop_le

theorem Contains.of_eq {u : Session} (h : t.Contains m u) (hinput : t.input = s.input) : s.Contains m u where
  input_eq := h.input_eq.trans hinput
  cursor_le := length_eq hinput ▸ h.cursor_le
  stop_le := length_eq hinput ▸ h.stop_le

end Session

namespace Pattern

open Session

theorem matchLiteral_contained (label text : String) : Contained (matchLiteral label text) := by
  intro s hs
  unfold matchLiteral
  dsimp only
  split
  · exact .fail _ rfl hs
  · refine (s.moveToR_yields _).bind ?_
    rintro t ⟨hle, rfl⟩
    exact ⟨by simp, by simpa using hle, fun _ => hle⟩

theorem matchClass_contained (label : String) (cls : CharClass) : Contained (matchClass label cls) := by
  intro s hs
  unfold matchClass
  dsimp only
  split
  · exact .fail _ rfl hs
  · split
    · refine (s.moveToR_yields _).bind ?_
      rintro t ⟨hle, rfl⟩
      exact ⟨by simp, by simpa using hle, fun _ => by simpa using hle⟩
    · exact .fail _ rfl hs

theorem matchItems_contained {items : List NodeId} (hcall : ∀ c ∈ items, Contained (call c)) (start : Nat)
    {acc : Match} (hs : s.cursor ≤ s.length) (hacc : acc.success = true → acc.stop ≤ s.length) :
    (matchItems call start items acc s).Yields True True fun a => s.Contains a.1 a.2 := by
  induction items generalizing acc s with
  | nil => exact ⟨rfl, hs, hacc⟩
  | cons item rest ih =>
    rw [matchItems]
    refine (hcall item (by simp) s hs).bind ?_
    rintro ⟨child, t⟩ hchild
    have hlength := length_eq hchild.input_eq
    dsimp only at hchild ⊢
    split
    · rename_i hsuccess
      refine (ih (fun c hc => hcall c (by simp [hc])) (hlength ▸ hchild.cursor_le) fun _ => ?_).mono
        fun a ha => ha.of_eq hchild.input_eq
      rw [Match.stop_push, hlength]
      exact hchild.stop_le hsuccess
    · refine (t.moveToR_yields _).bind ?_
      rintro u ⟨hle, rfl⟩
      exact .fail _ hchild.input_eq (hlength ▸ hle)

theorem matchAlternatives_contained {alternatives : List NodeId}
    (hcall : ∀ c ∈ alternatives, Contained (call c)) (start : Nat) :
    Contained (matchAlternatives call start alternatives) := by
  induction alternatives with
  | nil => exact fun s hs => .fail _ rfl hs
  | cons alternative rest ih =>
    intro s hs
    rw [matchAlternatives]
    refine (hcall alternative (by simp) s hs).bind ?_
    rintro ⟨child, t⟩ hchild
    dsimp only at hchild ⊢
    split
    · rename_i hsuccess
      exact ⟨hchild.input_eq, hchild.cursor_le, fun _ => hchild.stop_le hsuccess⟩
    · refine (t.moveToR_yields _).bind ?_
      rintro u ⟨hle, rfl⟩
      exact (ih (fun c hc => hcall c (by simp [hc])) (t.seek start) hle).mono
        fun a ha => ha.of_eq hchild.input_eq

theorem matchRounds_contained {body : NodeId} (hcall : Contained (call body)) {min : Nat} {max? : Option Nat}
    {rounds count : Nat} {acc : Match} (hs : s.cursor ≤ s.length) (hacc : acc.stop ≤ s.length) :
    (matchRounds call body min max? rounds count acc s).Yields True True fun a =>
      s.Contains a.2.1 a.2.2 := by
  induction rounds generalizing count acc s with
  | zero => trivial
  | succ rounds ih =>
    rw [matchRounds]
    split
    · refine (hcall s hs).bind ?_
      rintro ⟨child, t⟩ hchild
      have hlength := length_eq hchild.input_eq
      dsimp only at hchild ⊢
      cases hsuccess : child.success with
      | false =>
        rw [Bool.not_false, if_pos rfl]
        refine (t.moveToR_yields _).bind ?_
        rintro u ⟨hle, rfl⟩
        exact ⟨hchild.input_eq, hs, fun _ => hacc⟩
      | true =>
        have hstop := hchild.stop_le hsuccess
        rw [Bool.not_true, if_neg Bool.false_ne_true]
        split
        · exact (ih (hlength ▸ hchild.cursor_le) (hlength ▸ hstop)).mono fun a ha => ha.of_eq hchild.input_eq
        · exact ⟨hchild.input_eq, hchild.cursor_le, fun _ => hstop⟩
    · exact ⟨rfl, hs, fun _ => hacc⟩

theorem matchRepetition_contained {body : NodeId} (hcall : Contained (call body)) (min : Nat)
    (max? : Option Nat) : Contained (matchRepetition call body min max?) := by
  intro s hs
  unfold matchRepetition
  refine (matchRounds_contained hcall hs hs).bind ?_
  rintro ⟨count, m, t⟩ hm
  dsimp only at hm ⊢
  split
  · refine (t.moveToR_yields _).bind ?_
    rintro u ⟨hle, rfl⟩
    exact .fail _ hm.input_eq hs
  · exact hm

theorem matchPredicate_contained {body : NodeId} (hcall : Contained (call body)) (expected : Bool) :
    Contained (matchPredicate call body expected) := by
  intro s hs
  unfold matchPredicate
  refine (hcall s hs).bind ?_
  rintro ⟨child, t⟩ hchild
  refine (t.moveToR_yields _).bind ?_
  rintro u ⟨hle, rfl⟩
  refine ⟨hchild.input_eq, hs, fun _ => ?_⟩
  dsimp only
  split
  · exact hs
  · exact hs

theorem matchRule_contained {body : NodeId} (hcall : Contained (call body)) :
    Contained (matchRule call body) := by
  intro s hs
  unfold matchRule
  refine (hcall s hs).bind ?_
  rintro ⟨child, t⟩ hchild
  dsimp only at hchild ⊢
  split
  · rename_i h
    exact ⟨hchild.input_eq, hchild.cursor_le, fun _ => hchild.stop_le (Bool.and_eq_true_iff.1 h).1⟩
  · exact hchild

theorem eval_contained (label : String) (pattern : Pattern)
    (hcall : ∀ c ∈ pattern.components, Contained (call c)) :
    Contained fun s => pattern.eval call label s := by
  cases pattern with
  | literal text => exact matchLiteral_contained label text
  | charClass cls => exact matchClass_contained label cls
  | sequence items => exact fun s hs => matchItems_contained hcall s.cursor hs fun _ => hs
  | choice alternatives => exact fun s hs => matchAlternatives_contained hcall s.cursor s hs
  | repetition body min max? => exact matchRepetition_contained (hcall body (by simp [components])) min max?
  | predicate body expected => exact matchPredicate_contained (hcall body (by simp [components])) expected
  | rule body => exact matchRule_contained (hcall body (by simp [components]))

end Pattern

namespace Node

open Session

variable {node : Node} {id : NodeId}

theorem eval_contained (hcall : ∀ c ∈ node.pattern.components, Contained (call c)) :
    Contained (node.eval call) := by
  intro s hs
  unfold Node.eval
  have hlength : (s.emit .attempt node.label s.cursor s.cursor).length = s.length := length_eq (by simp)
  refine (Pattern.eval_contained node.label node.pattern hcall (s.emit .attempt node.label s.cursor s.cursor)
    (by rw [cursor_emit, hlength]; exact hs)).bind ?_
  rintro ⟨m, t⟩ hm
  have hm' := hm.of_eq (input_emit s _ _ _ _)
  refine ⟨?_, ?_, hm'.stop_le⟩
  · dsimp only
    split <;> simpa using hm'.input_eq
  · dsimp only
    split <;> simpa using hm'.cursor_le

/-- Each accepted attempt is longer than the one before, and ends within the input. -/
theorem growRounds_contained (hcall : ∀ c ∈ node.pattern.components, Contained (call c)) (iteration : Nat)
    {initial rounds k : Nat} {committed : Match}
    (h : growRounds call node id initial rounds (iteration + 1) committed s = .done (k, m, t)) :
    t.input = s.input ∧ iteration ≤ k ∧ committed.stop + (k - iteration) ≤ m.stop ∧
      (m = committed ∨ m.stop ≤ s.length) := by
  induction rounds generalizing iteration committed s with
  | zero => nomatch h
  | succ rounds ih =>
    obtain ⟨u, attempt, v, hu, hle, hattempt, hcase⟩ := growRounds_cases h
    have hlength : u.length = s.length := hu.length_eq
    have hcursor : u.cursor ≤ u.length := by
      rw [hu.cursor_eq, hlength]
      exact hle
    have hcontains : u.Contains attempt v := (eval_contained hcall u hcursor).of_done hattempt
    have hinput : v.input = s.input := hcontains.input_eq.trans hu.input_eq
    rcases hcase with ⟨_, rfl, rfl, ht⟩ | ⟨hsuccess, hfurther, w, hw, h⟩
    · exact ⟨ht.input_eq.trans hinput, Nat.le_refl _, by omega, .inl rfl⟩
    · obtain ⟨ht, hk, hm, hwhich⟩ := ih (iteration + 1) h
      have hwinput : w.input = s.input := hw.input_eq.trans hinput
      rw [Match.stop_withStatus] at hm
      refine ⟨ht.trans hwinput, by omega, by omega, .inr ?_⟩
      rcases hwhich with rfl | hm'
      · exact hlength ▸ hcontains.stop_le hsuccess
      · exact length_eq hwinput ▸ hm'

theorem answerFromMemo_contained (memo : Match) : Contained (node.answerFromMemo id memo) := by
  refine contained_iff.2 fun s m t hs h => ?_
  obtain ⟨hle, hcase⟩ := answerFromMemo_cases h
  have hcursor : (if memo.success then memo.stop else s.cursor) ≤ s.length := by
    split
    · rename_i hsuccess
      exact hle hsuccess
    · exact hs
  rcases hcase with ⟨_, rfl, ht⟩ | ⟨_, rfl, ht⟩
  · have hc : s.Contains (memo.withStatus .detected)
        ((s.seek (if memo.success then memo.stop else s.cursor)).remember s.cursor id
          (memo.withStatus .detected)) := ⟨rfl, hcursor, hle⟩
    exact hc.alike ht
  · have hc : s.Contains m (s.seek (if m.success then m.stop else s.cursor)) := ⟨rfl, hcursor, hle⟩
    exact hc.alike ht

theorem answerFirst_contained (hcall : ∀ c ∈ node.pattern.components, Contained (call c)) :
    Contained (node.answerFirst call id) := by
  refine contained_iff.2 fun s m t hs h => ?_
  obtain ⟨first, u, hfirst, hcase⟩ := answerFirst_cases h
  have hu : (s.remember s.cursor id (.placeholder s.cursor)).Contains first u :=
    (eval_contained hcall (s.remember s.cursor id (.placeholder s.cursor)) hs).of_done hfirst
  rcases hcase with ⟨_, _, v, k, w, hv, hgrow, hle, ht⟩ | ⟨_, rfl, ht⟩
  · have hinput : w.input = s.input :=
      (growRounds_contained hcall 0 hgrow).1.trans (hv.input_eq.trans hu.input_eq)
    rw [length_eq hinput] at hle
    have hc : s.Contains m (w.seek m.stop) := ⟨hinput, hle, fun _ => hle⟩
    exact hc.alike ht
  · have hc : s.Contains (first.withStatus .impossible) (u.remember s.cursor id (first.withStatus .impossible)) :=
      ⟨hu.input_eq, hu.cursor_le, hu.stop_le⟩
    exact hc.alike ht

end Node

namespace Grammar

open Session

variable {g : Grammar} {id : NodeId} {depth : Nat}

theorem answer_contained (hcall : ∀ c, Contained (call c)) : Contained (g.answer call id) := by
  intro s hs
  unfold answer
  cases hnode : g.node? id with
  | none => trivial
  | some node =>
    dsimp only
    have hlength : (s.emit .memoCheck node.label s.cursor s.cursor).length = s.length := length_eq (by simp)
    have hs' : (s.emit .memoCheck node.label s.cursor s.cursor).cursor ≤
        (s.emit .memoCheck node.label s.cursor s.cursor).length := by
      rw [cursor_emit, hlength]
      exact hs
    split
    · exact Node.eval_contained (fun c _ => hcall c) s hs
    · split
      · exact (Node.answerFromMemo_contained _ _ hs').mono fun a ha => ha.of_eq (input_emit ..)
      · exact (Node.answerFirst_contained (fun c _ => hcall c) _ hs').mono fun a ha => ha.of_eq (input_emit ..)

theorem run_contained (g : Grammar) (depth : Nat) (id : NodeId) : Contained (g.run depth id) := by
  induction depth generalizing id with
  | zero => exact fun _ _ => trivial
  | succ depth ih => exact answer_contained ih

/-- However a grow loop comes about, it accepts no more attempts than there are characters after the seed. -/
theorem growRounds_le {node : Node} {initial rounds n : Nat} {seed m : Match} {s t : Session}
    (h : node.growRounds (g.run depth) id initial rounds 1 seed s = .done (n, m, t)) :
    n ≤ s.length - seed.stop := by
  obtain ⟨_, _, hm, hwhich⟩ :=
    Node.growRounds_contained (fun c _ => g.run_contained depth c) 0 h
  rcases hwhich with rfl | hle
  · omega
  · omega

end Grammar

end Packrat
