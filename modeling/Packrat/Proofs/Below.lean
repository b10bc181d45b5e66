import Packrat.Proofs.Sessions

/-!
# Evaluators that answer less

An evaluator that answers some of the calls as another one does, and has a fault for all others, gives in every
run what the other one gives, or a fault. This is so of runs that meet their bound as well, so that it tells of
all calls that are made in a run, however it ends. The calls need only be compared in sessions with a property
that the steps of matching respect.
-/

namespace Packrat

open Session

namespace Run

variable {α β : Type} {J : α → Prop} {K : β → Prop} {r r' : Run α} {f f' : α → Run β}

/-- The run is a fault, or the same as `r'`; its value has the property `J`. -/
def Below (J : α → Prop) (r r' : Run α) : Prop :=
  match r with
  | .done a => r' = .done a ∧ J a
  | .fault _ _ => True
  | .exhausted => r' = .exhausted

theorem Below.bind (h : r.Below J r') (hf : ∀ a, J a → (f a).Below K (f' a)) : (r >>= f).Below K (r' >>= f') := by
  cases r with
  | done a =>
    obtain ⟨rfl, ha⟩ := h
    exact hf a ha
  | fault e s => exact trivial
  | exhausted =>
    obtain rfl := h
    exact rfl

theorem Below.mono {J' : α → Prop} (h : r.Below J r') (hJ : ∀ a, J a → J' a) : r.Below J' r' := by
  cases r with
  | done a => exact h.imp_right (hJ a)
  | fault e s => exact h
  | exhausted => exact h

theorem Below.eq (h : r.Below J r') (hr : ∀ e s, r ≠ .fault e s) : r = r' := by
  cases r with
  | done a => exact h.1.symm
  | fault e s => exact absurd rfl (hr e s)
  | exhausted => exact Eq.symm h

theorem Below.of_done {a : α} (h : r.Below J r') (hr : r = .done a) : r' = .done a ∧ J a := by
  subst hr
  exact h

theorem below_done {a : α} (ha : J a) : (Run.done a).Below J (.done a) := ⟨rfl, ha⟩

theorem below_self (h : ∀ a, r = .done a → J a) : r.Below J r := by
  cases r with
  | done a => exact ⟨rfl, h a rfl⟩
  | fault e s => exact trivial
  | exhausted => exact rfl

end Run

theorem Session.moveToR_below (s : Session) (position : Nat) :
    (s.moveToR position).Below (fun t => position ≤ s.length ∧ t = s.seek position) (s.moveToR position) :=
  Run.below_self fun _ => moveToR_eq_done_iff.1

/-- A property of sessions that the steps of a pattern respect, calls aside. -/
structure Session.Quiet (I : Session → Prop) : Prop where
  seek : ∀ {s position}, position ≤ s.length → I s → I (s.seek position)
  noteFailure : ∀ {s} position, I s → I (s.noteFailure position)
  restoreFailure : ∀ {s} furthest, I s → I (s.restoreFailure furthest)
  charAccept : ∀ {s} label start stop, start ≤ stop → stop ≤ s.length → I s → I (s.emit .charAccept label start stop)

theorem Session.Quiet.table (T : MemoTable → Prop) : Quiet fun s => T s.memo where
  seek _ h := h
  noteFailure _ h := h
  restoreFailure _ h := h
  charAccept _ _ _ _ _ h := (memo_emit ..).symm ▸ h

namespace Pattern

variable {I : Session → Prop} {call call' : Evaluator} {s : Session} {body : NodeId}

def CallsBelow (I : Session → Prop) (call call' : Evaluator) (c : NodeId) : Prop :=
  ∀ u, I u → (call c u).Below (fun a => I a.2) (call' c u)

theorem matchLiteral_below (hI : Quiet I) (label text : String) (hs : I s) :
    (matchLiteral label text s).Below (fun a => I a.2) (matchLiteral label text s) := by
  unfold matchLiteral
  dsimp only
  split
  · exact Run.below_done (hI.noteFailure _ hs)
  · refine (s.moveToR_below _).bind ?_
    rintro t ⟨hle, rfl⟩
    exact Run.below_done (hI.charAccept _ _ _ (Nat.le_add_right _ _) hle (hI.seek hle hs))

theorem matchClass_below (hI : Quiet I) (label : String) (cls : CharClass) (hs : I s) :
    (matchClass label cls s).Below (fun a => I a.2) (matchClass label cls s) := by
  unfold matchClass
  dsimp only
  split
  · exact Run.below_done (hI.noteFailure _ hs)
  · split
    · refine (s.moveToR_below _).bind ?_
      rintro t ⟨hle, rfl⟩
      exact Run.below_done (hI.charAccept _ _ _ (Nat.le_add_right _ _) hle (hI.seek hle hs))
    · exact Run.below_done (hI.noteFailure _ hs)

theorem matchItems_below (hI : Quiet I) (start : Nat) {items : List NodeId}
    (hcall : ∀ c ∈ items, CallsBelow I call call' c) {acc : Match} (hs : I s) :
    (matchItems call start items acc s).Below (fun a => I a.2) (matchItems call' start items acc s) := by
  induction items generalizing acc s with
  | nil => exact Run.below_done hs
  | cons item rest ih =>
    refine (hcall item (by simp) s hs).bind ?_
    rintro ⟨child, t⟩ ht
    dsimp only
    split
    · exact ih (fun c hc => hcall c (by simp [hc])) ht
    · refine (t.moveToR_below start).bind ?_
      rintro u ⟨hle, rfl⟩
      exact Run.below_done (hI.seek hle ht)

theorem matchAlternatives_below (hI : Quiet I) (start : Nat) {alternatives : List NodeId}
    (hcall : ∀ c ∈ alternatives, CallsBelow I call call' c) (hs : I s) :
    (matchAlternatives call start alternatives s).Below (fun a => I a.2)
      (matchAlternatives call' start alternatives s) := by
  induction alternatives generalizing s with
  | nil => exact Run.below_done hs
  | cons alternative rest ih =>
    refine (hcall alternative (by simp) s hs).bind ?_
    rintro ⟨child, t⟩ ht
    dsimp only
    split
    · exact Run.below_done ht
    · refine (t.moveToR_below start).bind ?_
      rintro u ⟨hle, rfl⟩
      exact ih (fun c hc => hcall c (by simp [hc])) (hI.seek hle ht)

theorem matchRounds_below (hI : Quiet I) (hcall : CallsBelow I call call' body) {min : Nat} {max? : Option Nat}
    {rounds count : Nat} {acc : Match} (hs : I s) :
    (matchRounds call body min max? rounds count acc s).Below (fun a => I a.2.2)
      (matchRounds call' body min max? rounds count acc s) := by
  induction rounds generalizing count acc s with
  | zero => exact rfl
  | succ rounds ih =>
    rw [matchRounds, matchRounds]
    split
    · refine (hcall s hs).bind ?_
      rintro ⟨child, t⟩ ht
      dsimp only
      split
      · refine (t.moveToR_below s.cursor).bind ?_
        rintro u ⟨hle, rfl⟩
        exact Run.below_done (hI.seek hle ht)
      · split
        · exact ih ht
        · exact Run.below_done ht
    · exact Run.below_done hs

theorem matchRepetition_below (hI : Quiet I) (hcall : CallsBelow I call call' body) (min : Nat) (max? : Option Nat)
    (hs : I s) :
    (matchRepetition call body min max? s).Below (fun a => I a.2) (matchRepetition call' body min max? s) := by
  refine (matchRounds_below hI hcall hs).bind ?_
  rintro ⟨count, m, t⟩ ht
  dsimp only
  split
  · refine (t.moveToR_below s.cursor).bind ?_
    rintro u ⟨hle, rfl⟩
    exact Run.below_done (hI.seek hle ht)
  · exact Run.below_done ht

theorem matchPredicate_below (hI : Quiet I) (hcall : CallsBelow I call call' body) (expected : Bool) (hs : I s) :
    (matchPredicate call body expected s).Below (fun a => I a.2) (matchPredicate call' body expected s) := by
  refine (hcall s hs).bind ?_
  rintro ⟨child, t⟩ ht
  refine (t.moveToR_below s.cursor).bind ?_
  rintro u ⟨hle, rfl⟩
  exact Run.below_done (hI.restoreFailure _ (hI.seek hle ht))

theorem matchRule_below (hcall : CallsBelow I call call' body) (hs : I s) :
    (matchRule call body s).Below (fun a => I a.2) (matchRule call' body s) := by
  refine (hcall s hs).bind ?_
  rintro ⟨child, t⟩ ht
  dsimp only
  split
  · exact Run.below_done ht
  · exact Run.below_done ht

theorem eval_below (hI : Quiet I) (label : String) (pattern : Pattern)
    (hcall : ∀ c ∈ pattern.components, CallsBelow I call call' c) (hs : I s) :
    (pattern.eval call label s).Below (fun a => I a.2) (pattern.eval call' label s) := by
  cases pattern with
  | literal text => exact matchLiteral_below hI label text hs
  | charClass cls => exact matchClass_below hI label cls hs
  | sequence items => exact matchItems_below hI s.cursor hcall hs
  | choice alternatives => exact matchAlternatives_below hI s.cursor hcall hs
  | repetition body min max? => exact matchRepetition_below hI (hcall body (by simp [components])) min max? hs
  | predicate body expected => exact matchPredicate_below hI (hcall body (by simp [components])) expected hs
  | rule body => exact matchRule_below (hcall body (by simp [components])) hs

end Pattern

namespace Node

open Pattern

variable {T : MemoTable → Prop} {grows : Prop} {call call' : Evaluator} {node : Node} {id : NodeId} {s : Session}

theorem eval_below (hcall : ∀ c, CallsBelow (fun u => T u.memo) call call' c) (hs : T s.memo) :
    (node.eval call s).Below (fun a => T a.2.memo) (node.eval call' s) := by
  refine (Pattern.eval_below (.table T) node.label node.pattern (fun c _ => hcall c) (by simpa using hs)).bind ?_
  rintro ⟨m, t⟩ ht
  refine Run.below_done ?_
  dsimp only at ht ⊢
  split <;> simpa using ht

/-- Growing needs the property to hold whatever the entry of the rule itself may be. -/
theorem growRounds_below (hcall : ∀ c, CallsBelow (fun u => T u.memo) call call' c)
    (hgrow : ∀ table position m, T table → T (table.insert position id m)) {initial rounds iteration : Nat}
    {committed : Match} (hs : T s.memo) :
    (node.growRounds call id initial rounds iteration committed s).Below (fun a => T a.2.2.memo)
      (node.growRounds call' id initial rounds iteration committed s) := by
  induction rounds generalizing iteration committed s with
  | zero => exact rfl
  | succ rounds ih =>
    refine (moveToR_below ..).bind ?_
    rintro t ⟨_, rfl⟩
    refine (eval_below hcall (by simpa using hs)).bind ?_
    rintro ⟨attempt, u⟩ hu
    dsimp only at hu ⊢
    split
    · exact Run.below_done (by simpa using hu)
    · split
      · exact Run.below_done (by simpa using hu)
      · exact ih (by simpa using hgrow _ _ _ hu)

/-- The property has to hold with a placeholder in the table and, once the rule has been marked, with any other
entry of it. -/
theorem answerFirst_below (hcall : ∀ c, CallsBelow (fun u => T u.memo) call call' c)
    (hbegin : ∀ table position, T table → T (table.insert position id (.placeholder position)))
    (hmark : ∀ table position, T table →
      ((table.get? position id).map Match.status).getD .possible = .detected → grows)
    (hgrow : grows → ∀ table position m, T table → T (table.insert position id m)) (hs : T s.memo) :
    (node.answerFirst call id s).Below (fun _ => True) (node.answerFirst call' id s) := by
  refine (eval_below hcall (hbegin _ _ hs)).bind ?_
  rintro ⟨m, t⟩ ht
  dsimp only at ht ⊢
  split
  · rename_i hgrows
    have hmarked := hgrow (hmark _ _ ht (of_decide_eq_true (Bool.and_eq_true_iff.1 hgrows).1))
    refine (growRounds_below hcall hmarked (by simpa using hmarked _ _ _ ht)).bind ?_
    rintro ⟨k, committed, u⟩ _
    refine (moveToR_below ..).bind ?_
    exact fun v _ => Run.below_done trivial
  · exact Run.below_done trivial

end Node

open Pattern in
theorem Grammar.answer_below {g : Grammar} {T : MemoTable → Prop} {grows : Prop} {call call' : Evaluator}
    {id : NodeId} {s : Session} (hcall : ∀ c, CallsBelow (fun u => T u.memo) call call' c)
    (hbegin : ∀ table position, T table → T (table.insert position id (.placeholder position)))
    (hmark : ∀ table position, T table →
      ((table.get? position id).map Match.status).getD .possible = .detected → grows)
    (hgrow : grows → ∀ table position m, T table → T (table.insert position id m)) (hs : T s.memo) :
    (g.answer call id s).Below (fun _ => True) (g.answer call' id s) := by
  unfold answer
  cases g.node? id with
  | none => exact trivial
  | some node =>
    dsimp only
    split
    · exact (Node.eval_below hcall hs).mono fun _ _ => trivial
    · split
      · rename_i memo _
        exact Run.below_self fun _ _ => trivial
      · exact Node.answerFirst_below hcall hbegin hmark hgrow (by simpa using hs)

theorem Grammar.answer_below_of_forall {call call' : Evaluator}
    (hcall : ∀ c u, (call c u).Below (fun _ => True) (call' c u)) (g : Grammar) (id : NodeId) (s : Session) :
    (g.answer call id s).Below (fun _ => True) (g.answer call' id s) := by
  refine answer_below (T := fun _ => True) (fun c u _ => hcall c u) ?_ (fun _ _ _ _ => trivial) ?_ trivial
  · exact fun _ _ _ => trivial
  · exact fun _ _ _ _ _ => trivial

end Packrat
