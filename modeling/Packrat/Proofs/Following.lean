import Packrat.Proofs.Sessions
import Packrat.Proofs.Yields

/-!
# One evaluator following another

Two ways to answer the calls inside a pattern are compared. If the second one gives related answers
wherever the first one gives an answer, the same holds of the pattern as a whole. What counts as
related is left open, and may be one thing for the answers and another for what a pattern makes of
them; it only has to be respected by the steps of matching. A claim may also be made for those runs
only that lead to a memo table with a property `F`, provided that no call establishes `F`.
-/

namespace Packrat

/-- A relation between sessions that the steps of matching respect, other than those on the memo
table. -/
structure Session.Congruence (S : Session → Session → Prop) : Prop where
  input_eq : ∀ {s t}, S s t → s.input = t.input
  cursor_eq : ∀ {s t}, S s t → s.cursor = t.cursor
  seek : ∀ {s t position}, position ≤ s.length → S s t → S (s.seek position) (t.seek position)
  emit : ∀ {s t} kind label start stop, S s t → S (s.emit kind label start stop) (t.emit kind label start stop)
  noteFailure : ∀ {s t} position, S s t → S (s.noteFailure position) (t.noteFailure position)
  restoreFailure : ∀ {s t s₀ t₀}, S s t → S s₀ t₀ →
    S (s.restoreFailure s₀.furthestFailure?) (t.restoreFailure t₀.furthestFailure?)

theorem Session.Congruence.eq : Session.Congruence Eq where
  input_eq h := h ▸ rfl
  cursor_eq h := h ▸ rfl
  seek _ h := h ▸ rfl
  emit _ _ _ _ h := h ▸ rfl
  noteFailure _ h := h ▸ rfl
  restoreFailure h h₀ := h ▸ h₀ ▸ rfl

structure Match.Congruence (M : Match → Match → Prop) : Prop where
  refl : ∀ m, M m m
  success_eq : ∀ {m n}, M m n → m.success = n.success
  start_eq : ∀ {m n}, M m n → m.start = n.start
  stop_eq : ∀ {m n}, M m n → m.stop = n.stop
  hidden_eq : ∀ {m n}, M m n → m.hidden = n.hidden
  push : ∀ {m n c d}, M m n → M c d → M (m.push c) (n.push d)
  stamp : ∀ {m n} origin, M m n → M (m.stamp origin) (n.stamp origin)

theorem Match.Congruence.eq : Match.Congruence Eq where
  refl _ := rfl
  success_eq h := h ▸ rfl
  start_eq h := h ▸ rfl
  stop_eq h := h ▸ rfl
  hidden_eq h := h ▸ rfl
  push h hc := h ▸ hc ▸ rfl
  stamp _ h := h ▸ rfl

/-- What a rule makes of the match of its body. -/
def Match.ofBody (m : Match) : Match :=
  if m.success && !m.hidden then (Match.empty m.start).push m else m

/-- If the answers to the calls inside a pattern are related by `C`, what the pattern makes of them is related by `M`.
Only successes become children. -/
structure Match.Passage (C M : Match → Match → Prop) : Prop where
  refl_call : ∀ m, C m m
  refl : ∀ m, M m m
  success_eq : ∀ {c d}, C c d → c.success = d.success
  stop_eq : ∀ {c d}, C c d → c.stop = d.stop
  push : ∀ {m n c d}, M m n → C c d → c.success = true → M (m.push c) (n.push d)
  ofBody : ∀ {c d}, C c d → M c.ofBody d.ofBody

theorem Match.Congruence.passage {M : Match → Match → Prop} (hM : Match.Congruence M) : Match.Passage M M where
  refl_call := hM.refl
  refl := hM.refl
  success_eq := hM.success_eq
  stop_eq := hM.stop_eq
  push h hc _ := hM.push h hc
  ofBody h := by
    unfold Match.ofBody
    rw [← hM.success_eq h, ← hM.hidden_eq h, ← hM.start_eq h]
    split
    · exact hM.push (hM.refl _) h
    · exact h

theorem Match.Passage.eq : Match.Passage Eq Eq := Match.Congruence.eq.passage

/-- Whenever `x` ends, with a table that has the property `F`, so does `y` from a related session, and
with a related outcome. No run of `x` establishes `F`. -/
def Follows {α : Type} (S : Session → Session → Prop) (F : MemoTable → Prop) (fault : Prop)
    (R : α → α → Prop) (x y : Session → Run (α × Session)) : Prop :=
  ∀ s a s', x s = .done (a, s') → (F s'.memo → F s.memo) ∧
    ∀ t, S s t → F s'.memo → (y t).Yields fault False fun b => R a b.1 ∧ S s' b.2

namespace Follows

variable {S : Session → Session → Prop} {F : MemoTable → Prop} {fault : Prop} {α β : Type}
  {R : α → α → Prop} {R' : β → β → Prop}

theorem pure {a b : α} (hab : R a b) :
    Follows S F fault R (fun s => .done (a, s)) (fun s => .done (b, s)) := by
  intro s c s' h
  obtain ⟨rfl, rfl⟩ := Prod.mk.inj (Run.done.inj h)
  exact ⟨id, fun t hst _ => ⟨hab, hst⟩⟩

theorem bind {x y : Session → Run (α × Session)} {k l : α → Session → Run (β × Session)}
    (hR : ∀ a, R a a) (hx : Follows S F fault R x y)
    (hk : ∀ a b, R a b → Follows S F fault R' (k a) (l b)) :
    Follows S F fault R' (fun s => x s >>= fun p => k p.1 p.2) (fun s => y s >>= fun p => l p.1 p.2) := by
  intro s b s' h
  obtain ⟨⟨a, s₁⟩, ha, hb⟩ := Run.bind_eq_done_iff.1 h
  obtain ⟨hback, hfollow⟩ := hx s a s₁ ha
  have hback' := (hk a a (hR a) s₁ b s' hb).1
  refine ⟨fun hF => hback (hback' hF), fun t hst hF => (hfollow t hst (hback' hF)).bind ?_⟩
  rintro ⟨c, t₁⟩ ⟨hac, hst₁⟩
  exact (hk a c hac s₁ b s' hb).2 t₁ hst₁ hF

theorem mono {Q : α → α → Prop} {x y : Session → Run (α × Session)} (hR : ∀ a b, R a b → Q a b)
    (h : Follows S F fault R x y) : Follows S F fault Q x y := by
  intro s a s' hx
  obtain ⟨hback, hfollow⟩ := h s a s' hx
  exact ⟨hback, fun t hst hF => (hfollow t hst hF).mono fun b hb => ⟨hR a b.1 hb.1, hb.2⟩⟩

theorem at_cursor (hS : Session.Congruence S) {x y : Nat → Session → Run (α × Session)}
    (h : ∀ position, Follows S F fault R (x position) (y position)) :
    Follows S F fault R (fun s => x s.cursor s) (fun s => y s.cursor s) := by
  intro s a s' hx
  obtain ⟨hback, hfollow⟩ := h s.cursor s a s' hx
  refine ⟨hback, fun t hst hF => ?_⟩
  have ht := hfollow t hst hF
  rwa [hS.cursor_eq hst] at ht

theorem at_length (hS : Session.Congruence S) {x y : Nat → Session → Run (α × Session)}
    (h : ∀ length, Follows S F fault R (x length) (y length)) :
    Follows S F fault R (fun s => x s.length s) (fun s => y s.length s) := by
  intro s a s' hx
  obtain ⟨hback, hfollow⟩ := h s.length s a s' hx
  refine ⟨hback, fun t hst hF => ?_⟩
  have ht := hfollow t hst hF
  rwa [Session.length_eq (hS.input_eq hst)] at ht

theorem seek (hS : Session.Congruence S) (position : Nat) {x y : Session → Run (α × Session)}
    (h : Follows S F fault R x y) :
    Follows S F fault R (fun s => s.moveToR position >>= x) (fun s => s.moveToR position >>= y) := by
  intro s a s' hx
  obtain ⟨s₁, hs₁, hx⟩ := Run.bind_eq_done_iff.1 hx
  obtain ⟨hle, rfl⟩ := Session.moveToR_eq_done_iff.1 hs₁
  obtain ⟨hback, hfollow⟩ := h _ a s' hx
  refine ⟨hback, fun t hst hF => ?_⟩
  dsimp only
  rw [Session.moveToR_of_le (Session.length_eq (hS.input_eq hst) ▸ hle)]
  exact hfollow _ (hS.seek hle hst) hF

theorem emit (hS : Session.Congruence S) (kind : EventKind) (label : String) (start stop : Nat)
    {x y : Session → Run (α × Session)} (h : Follows S F fault R x y) :
    Follows S F fault R (fun s => x (s.emit kind label start stop))
      (fun s => y (s.emit kind label start stop)) := by
  intro s a s' hx
  obtain ⟨hback, hfollow⟩ := h _ a s' hx
  exact ⟨fun hF => Session.memo_emit s kind label start stop ▸ hback hF,
    fun t hst hF => hfollow _ (hS.emit _ _ _ _ hst) hF⟩

theorem noteFailure (hS : Session.Congruence S) (position : Nat) {x y : Session → Run (α × Session)}
    (h : Follows S F fault R x y) :
    Follows S F fault R (fun s => x (s.noteFailure position)) (fun s => y (s.noteFailure position)) := by
  intro s a s' hx
  obtain ⟨hback, hfollow⟩ := h _ a s' hx
  exact ⟨hback, fun t hst hF => hfollow _ (hS.noteFailure _ hst) hF⟩

end Follows

namespace Pattern

variable {S : Session → Session → Prop} {C M : Match → Match → Prop} {F : MemoTable → Prop} {fault : Prop}
  {call call' : Evaluator}

theorem commonLength_eq {s t : Session} (hinput : s.input = t.input) (hcursor : s.cursor = t.cursor)
    (text : String) : s.commonLength text = t.commonLength text := by
  have h : ∀ (expected : List Char) (position : Nat),
      s.agreement position expected = t.agreement position expected := by
    intro expected
    induction expected with
    | nil => intro position; rfl
    | cons c rest ih => intro position; simp only [Session.agreement, hinput, ih]
  rw [Session.commonLength, Session.commonLength, h, hcursor]

theorem matchLiteral_follows (hS : Session.Congruence S) (hM : Match.Passage C M) (label text : String) :
    Follows S F fault M (matchLiteral label text) (matchLiteral label text) := by
  have h : ∀ agreed position, Follows S F fault M
      (fun s => if agreed < text.length then .done (.fail position, s.noteFailure (position + agreed))
        else s.moveToR (position + text.length) >>= fun s =>
          .done (.leaf position text, s.emit .charAccept label position (position + text.length)))
      (fun s => if agreed < text.length then .done (.fail position, s.noteFailure (position + agreed))
        else s.moveToR (position + text.length) >>= fun s =>
          .done (.leaf position text, s.emit .charAccept label position (position + text.length))) := by
    intro agreed position
    split
    · exact Follows.noteFailure hS _ (.pure (hM.refl _))
    · exact Follows.seek hS _ (Follows.emit hS _ _ _ _ (.pure (hM.refl _)))
  intro s a s' hx
  obtain ⟨hback, hfollow⟩ := h (s.commonLength text) s.cursor s a s' hx
  refine ⟨hback, fun t hst hF => ?_⟩
  have ht := hfollow t hst hF
  rw [commonLength_eq (hS.input_eq hst) (hS.cursor_eq hst), hS.cursor_eq hst] at ht
  exact ht

theorem matchClass_follows (hS : Session.Congruence S) (hM : Match.Passage C M) (label : String)
    (cls : CharClass) : Follows S F fault M (matchClass label cls) (matchClass label cls) := by
  intro s a s' hx
  have hpeek : ∀ t, S s t → t.peek? = s.peek? := fun t hst => by
    rw [Session.peek?, Session.peek?, hS.input_eq hst, hS.cursor_eq hst]
  have hreject : Follows S F fault M (fun s' => .done (.fail s.cursor, s'.noteFailure s.cursor))
      (fun s' => .done (.fail s.cursor, s'.noteFailure s.cursor)) :=
    Follows.noteFailure hS _ (.pure (hM.refl _))
  have haccept : ∀ c, Follows S F fault M
      (fun s' => s'.moveToR (s.cursor + 1) >>= fun s' =>
        .done (.leaf s.cursor (String.singleton c), s'.emit .charAccept label s.cursor (s.cursor + 1)))
      (fun s' => s'.moveToR (s.cursor + 1) >>= fun s' =>
        .done (.leaf s.cursor (String.singleton c), s'.emit .charAccept label s.cursor (s.cursor + 1))) :=
    fun c => Follows.seek hS _ (Follows.emit hS _ _ _ _ (.pure (hM.refl _)))
  unfold matchClass at hx ⊢
  dsimp only at hx ⊢
  split at hx
  · rename_i hnone
    obtain ⟨hback, hfollow⟩ := hreject s a s' hx
    refine ⟨hback, fun t hst hF => ?_⟩
    rw [hpeek t hst, hnone, ← hS.cursor_eq hst]
    exact hfollow t hst hF
  · rename_i c hsome
    split at hx
    · rename_i haccepts
      obtain ⟨hback, hfollow⟩ := haccept c s a s' hx
      refine ⟨hback, fun t hst hF => ?_⟩
      rw [hpeek t hst, hsome, ← hS.cursor_eq hst]
      dsimp only
      rw [if_pos haccepts]
      exact hfollow t hst hF
    · rename_i haccepts
      obtain ⟨hback, hfollow⟩ := hreject s a s' hx
      refine ⟨hback, fun t hst hF => ?_⟩
      rw [hpeek t hst, hsome, ← hS.cursor_eq hst]
      dsimp only
      rw [if_neg haccepts]
      exact hfollow t hst hF

theorem matchItems_follows (hS : Session.Congruence S) (hM : Match.Passage C M) (start : Nat)
    {items : List NodeId} (hcall : ∀ c ∈ items, Follows S F fault C (call c) (call' c)) {acc acc' : Match}
    (hacc : M acc acc') :
    Follows S F fault M (matchItems call start items acc) (matchItems call' start items acc') := by
  induction items generalizing acc acc' with
  | nil => exact .pure hacc
  | cons item rest ih =>
    refine Follows.bind hM.refl_call (hcall item (by simp))
      (k := fun child s => if child.success then matchItems call start rest (acc.push child) s
        else s.moveToR start >>= fun s => .done (.fail start, s))
      (l := fun child s => if child.success then matchItems call' start rest (acc'.push child) s
        else s.moveToR start >>= fun s => .done (.fail start, s)) fun child child' hchild => ?_
    rw [← hM.success_eq hchild]
    split
    · rename_i hsuccess
      exact ih (fun c hc => hcall c (by simp [hc])) (hM.push hacc hchild hsuccess)
    · exact Follows.seek hS _ (.pure (hM.refl _))

theorem matchAlternatives_follows (hS : Session.Congruence S) (hM : Match.Passage C M) (start : Nat)
    {alternatives : List NodeId}
    (hcall : ∀ c ∈ alternatives, Follows S F fault C (call c) (call' c)) :
    Follows S F fault M (matchAlternatives call start alternatives)
      (matchAlternatives call' start alternatives) := by
  induction alternatives with
  | nil => exact .pure (hM.refl _)
  | cons alternative rest ih =>
    refine Follows.bind hM.refl_call (hcall alternative (by simp))
      (k := fun child s => if child.success then .done ((Match.empty start).push child, s)
        else s.moveToR start >>= fun s => matchAlternatives call start rest s)
      (l := fun child s => if child.success then .done ((Match.empty start).push child, s)
        else s.moveToR start >>= fun s => matchAlternatives call' start rest s)
      fun child child' hchild => ?_
    rw [← hM.success_eq hchild]
    split
    · rename_i hsuccess
      exact .pure (hM.push (hM.refl _) hchild hsuccess)
    · exact Follows.seek hS _ (ih fun c hc => hcall c (by simp [hc]))

theorem matchRounds_follows (hS : Session.Congruence S) (hM : Match.Passage C M) {body : NodeId}
    (hcall : Follows S F fault C (call body) (call' body)) {min : Nat} {max? : Option Nat} {rounds : Nat}
    {count : Nat} {acc acc' : Match} (hacc : M acc acc') {s s' : Session} {n : Nat} {m : Match}
    (h : matchRounds call body min max? rounds count acc s = .done (n, m, s')) :
    (F s'.memo → F s.memo) ∧ ∀ t, S s t → F s'.memo →
      (matchRounds call' body min max? rounds count acc' t).Yields fault False fun b =>
        n = b.1 ∧ M m b.2.1 ∧ S s' b.2.2 := by
  induction rounds generalizing count acc acc' s with
  | zero => simp [matchRounds] at h
  | succ rounds ih =>
    rw [matchRounds] at h
    simp only [matchRounds]
    split at h
    · rename_i hmay
      obtain ⟨⟨child, s₁⟩, hchild, h⟩ := Run.bind_eq_done_iff.1 h
      obtain ⟨hback, hfollow⟩ := hcall s child s₁ hchild
      dsimp only at h
      simp only [if_pos hmay]
      cases hsuccess : child.success with
      | false =>
        rw [hsuccess, Bool.not_false, if_pos rfl] at h
        obtain ⟨s₂, hs₂, h⟩ := Run.bind_eq_done_iff.1 h
        obtain ⟨hle, rfl⟩ := Session.moveToR_eq_done_iff.1 hs₂
        obtain ⟨rfl, rfl, rfl⟩ := by simpa using h
        refine ⟨hback, fun t hst hF => (hfollow t hst hF).bind ?_⟩
        rintro ⟨child', t₁⟩ ⟨hcc, hst₁⟩
        dsimp only at hcc hst₁ ⊢
        rw [← hM.success_eq hcc, hsuccess, Bool.not_false, if_pos rfl, ← hS.cursor_eq hst,
          Session.moveToR_of_le (Session.length_eq (hS.input_eq hst₁) ▸ hle)]
        exact ⟨rfl, hacc, hS.seek hle hst₁⟩
      | true =>
        rw [hsuccess, Bool.not_true, if_neg Bool.false_ne_true] at h
        split at h
        · rename_i hprogress
          refine ⟨fun hF => hback ((ih (hM.refl _) h).1 hF), fun t hst hF =>
            (hfollow t hst ((ih (hM.refl _) h).1 hF)).bind ?_⟩
          rintro ⟨child', t₁⟩ ⟨hcc, hst₁⟩
          dsimp only at hcc hst₁ ⊢
          rw [← hM.success_eq hcc, hsuccess, Bool.not_true, if_neg Bool.false_ne_true,
            ← hM.stop_eq hcc, ← hS.cursor_eq hst, if_pos hprogress]
          exact (ih (hM.push hacc hcc hsuccess) h).2 t₁ hst₁ hF
        · rename_i hstill
          obtain ⟨rfl, rfl, rfl⟩ := by simpa using h
          refine ⟨hback, fun t hst hF => (hfollow t hst hF).bind ?_⟩
          rintro ⟨child', t₁⟩ ⟨hcc, hst₁⟩
          dsimp only at hcc hst₁ ⊢
          rw [← hM.success_eq hcc, hsuccess, Bool.not_true, if_neg Bool.false_ne_true,
            ← hM.stop_eq hcc, ← hS.cursor_eq hst, if_neg hstill]
          exact ⟨rfl, hM.push hacc hcc hsuccess, hst₁⟩
    · rename_i hmay
      obtain ⟨rfl, rfl, rfl⟩ := by simpa using h
      simp only [if_neg hmay]
      exact ⟨id, fun t hst _ => ⟨rfl, hacc, hst⟩⟩

theorem matchRepetition_follows (hS : Session.Congruence S) (hM : Match.Passage C M) {body : NodeId}
    (hcall : Follows S F fault C (call body) (call' body)) (min : Nat) (max? : Option Nat) :
    Follows S F fault M (matchRepetition call body min max?) (matchRepetition call' body min max?) := by
  intro s a s' h
  unfold matchRepetition at h ⊢
  obtain ⟨⟨count, m, s₁⟩, hrounds, h⟩ := Run.bind_eq_done_iff.1 h
  dsimp only at h
  have hloop : (F s₁.memo → F s.memo) ∧ ∀ t, S s t → F s₁.memo →
      (matchRounds call' body min max? (s.length - s.cursor + 1) 0 (.empty s.cursor) t).Yields fault False
        fun b => count = b.1 ∧ M m b.2.1 ∧ S s₁ b.2.2 :=
    matchRounds_follows hS hM hcall (hM.refl _) hrounds
  have hend : ∀ m', M m m' → Follows S F fault M
      (fun u => if count < min then u.moveToR s.cursor >>= fun u => .done (.fail s.cursor, u) else .done (m, u))
      (fun u => if count < min then u.moveToR s.cursor >>= fun u => .done (.fail s.cursor, u)
        else .done (m', u)) := fun m' hm => by
    split
    · exact Follows.seek hS _ (.pure (hM.refl _))
    · exact .pure hm
  obtain ⟨hback, _⟩ := hend m (hM.refl m) s₁ a s' h
  refine ⟨fun hF => hloop.1 (hback hF), fun t hst hF => ?_⟩
  have ht := hloop.2 t hst (hback hF)
  rw [hS.cursor_eq hst, Session.length_eq (hS.input_eq hst)] at ht
  refine ht.bind ?_
  rintro ⟨count', m', t₁⟩ ⟨rfl, hm, hst₁⟩
  dsimp only at hm hst₁ ⊢
  have hrest := (hend m' hm s₁ a s' h).2 t₁ hst₁ hF
  rwa [hS.cursor_eq hst] at hrest

theorem matchPredicate_follows (hS : Session.Congruence S) (hM : Match.Passage C M) {body : NodeId}
    (hcall : Follows S F fault C (call body) (call' body)) (expected : Bool) :
    Follows S F fault M (matchPredicate call body expected) (matchPredicate call' body expected) := by
  intro s a s' h
  unfold matchPredicate at h ⊢
  obtain ⟨⟨child, s₁⟩, hchild, h⟩ := Run.bind_eq_done_iff.1 h
  obtain ⟨hback, hfollow⟩ := hcall s child s₁ hchild
  obtain ⟨s₂, hs₂, h⟩ := Run.bind_eq_done_iff.1 h
  obtain ⟨hle, rfl⟩ := Session.moveToR_eq_done_iff.1 hs₂
  obtain ⟨rfl, rfl⟩ := Prod.mk.inj (Run.done.inj h)
  refine ⟨hback, fun t hst hF => (hfollow t hst hF).bind ?_⟩
  rintro ⟨child', t₁⟩ ⟨hcc, hst₁⟩
  dsimp only at hcc hst₁ ⊢
  rw [← hM.success_eq hcc, ← hS.cursor_eq hst,
    Session.moveToR_of_le (Session.length_eq (hS.input_eq hst₁) ▸ hle)]
  exact ⟨hM.refl _, hS.restoreFailure (hS.seek hle hst₁) hst⟩

theorem matchRule_eq (call : Evaluator) (body : NodeId) (s : Session) :
    matchRule call body s = call body s >>= fun a => .done (a.1.ofBody, a.2) := by
  unfold matchRule Match.ofBody
  cases call body s with
  | done a =>
    obtain ⟨child, t⟩ := a
    simp only [Run.done_bind]
    split <;> rfl
  | fault e s => rfl
  | exhausted => rfl

theorem matchRule_follows (hM : Match.Passage C M) {body : NodeId}
    (hcall : Follows S F fault C (call body) (call' body)) :
    Follows S F fault M (matchRule call body) (matchRule call' body) := by
  have h : Follows S F fault M (fun s => call body s >>= fun a => .done (a.1.ofBody, a.2))
      (fun s => call' body s >>= fun a => .done (a.1.ofBody, a.2)) := by
    refine Follows.bind hM.refl_call hcall (k := fun child s => .done (child.ofBody, s))
      (l := fun child s => .done (child.ofBody, s)) ?_
    intro child child' hchild
    exact .pure (hM.ofBody hchild)
  intro s a s' hx
  rw [matchRule_eq] at hx
  obtain ⟨hback, hfollow⟩ := h s a s' hx
  refine ⟨hback, fun t hst hF => ?_⟩
  rw [matchRule_eq]
  exact hfollow t hst hF

theorem eval_follows (hS : Session.Congruence S) (hM : Match.Passage C M) (label : String)
    (pattern : Pattern) (hcall : ∀ c ∈ pattern.components, Follows S F fault C (call c) (call' c)) :
    Follows S F fault M (fun s => pattern.eval call label s) (fun s => pattern.eval call' label s) := by
  cases pattern with
  | literal text => exact matchLiteral_follows hS hM label text
  | charClass cls => exact matchClass_follows hS hM label cls
  | sequence items =>
    exact Follows.at_cursor hS fun position => matchItems_follows hS hM position hcall (hM.refl _)
  | choice alternatives =>
    exact Follows.at_cursor hS fun position => matchAlternatives_follows hS hM position hcall
  | repetition body min max? =>
    exact matchRepetition_follows hS hM (hcall body (by simp [components])) min max?
  | predicate body expected =>
    exact matchPredicate_follows hS hM (hcall body (by simp [components])) expected
  | rule body => exact matchRule_follows hM (hcall body (by simp [components]))

end Pattern

/-- What holds of the calls inside a node holds of the node, memo table aside. The matches of the node are related by
`R` if what its pattern makes of the calls is, once the node is recorded. -/
theorem Node.eval_passes {S : Session → Session → Prop} {C M R : Match → Match → Prop} {F : MemoTable → Prop}
    {fault : Prop} {call call' : Evaluator} (hS : Session.Congruence S) (hM : Match.Passage C M)
    (hR : Match.Congruence R) (node : Node) (hstamp : ∀ {m n}, M m n → R (m.stamp node.origin) (n.stamp node.origin))
    (hcall : ∀ c ∈ node.pattern.components, Follows S F fault C (call c) (call' c)) :
    Follows S F fault R (node.eval call) (node.eval call') := by
  refine Follows.at_cursor hS (x := fun start s =>
      node.pattern.eval call node.label (s.emit .attempt node.label start start) >>= fun a =>
        .done (a.1.stamp node.origin, if (a.1.stamp node.origin).success then
          a.2.emit .accept node.label (a.1.stamp node.origin).start (a.1.stamp node.origin).stop
          else a.2.emit .reject node.label start start))
    (y := fun start s =>
      node.pattern.eval call' node.label (s.emit .attempt node.label start start) >>= fun a =>
        .done (a.1.stamp node.origin, if (a.1.stamp node.origin).success then
          a.2.emit .accept node.label (a.1.stamp node.origin).start (a.1.stamp node.origin).stop
          else a.2.emit .reject node.label start start)) fun start => ?_
  refine Follows.bind hM.refl
    (Follows.emit hS _ _ _ _ (Pattern.eval_follows hS hM node.label node.pattern hcall))
    (k := fun m s => .done (m.stamp node.origin, if (m.stamp node.origin).success then
      s.emit .accept node.label (m.stamp node.origin).start (m.stamp node.origin).stop
      else s.emit .reject node.label start start))
    (l := fun m s => .done (m.stamp node.origin, if (m.stamp node.origin).success then
      s.emit .accept node.label (m.stamp node.origin).start (m.stamp node.origin).stop
      else s.emit .reject node.label start start)) fun m m' hm => ?_
  have hm' := hstamp hm
  rw [← hR.success_eq hm', ← hR.start_eq hm', ← hR.stop_eq hm']
  split
  · exact Follows.emit hS _ _ _ _ (.pure hm')
  · exact Follows.emit hS _ _ _ _ (.pure hm')

theorem Node.eval_follows {S : Session → Session → Prop} {M : Match → Match → Prop}
    {F : MemoTable → Prop} {fault : Prop} {call call' : Evaluator} (hS : Session.Congruence S)
    (hM : Match.Congruence M) (node : Node)
    (hcall : ∀ c ∈ node.pattern.components, Follows S F fault M (call c) (call' c)) :
    Follows S F fault M (node.eval call) (node.eval call') :=
  Node.eval_passes hS hM.passage hM node (hM.stamp node.origin) hcall

end Packrat
