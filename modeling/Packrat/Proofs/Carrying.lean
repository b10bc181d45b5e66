import Packrat.Proofs.Contexts

/-!
# What matching carries along

A property of sessions that no step of matching breaks, and a property of successes that a node has whenever
its components have it: both are carried along by every match, whatever the memo table is used for on the way.
Each form of pattern is shown to carry them, then the calls of rules, then runs of any depth.
-/

namespace Packrat

open Session

/-- The matches of the rounds of a repetition: no more than the maximum, all but the last of them with some
characters, and fewer than the minimum only if the last is empty. -/
structure Match.Repeat (min : Nat) (max? : Option Nat) (rounds : List Match) : Prop where
  length_le : ∀ max, max? = some max → rounds.length ≤ max
  consumes : ∀ round ∈ rounds.dropLast, round.start < round.stop
  min_le : min ≤ rounds.length ∨ ∃ last, rounds.getLast? = some last ∧ last.stop = last.start

/-- A success of a pattern, before it is known which node it comes from, stands on matches of the components
with the property `Q`. The match of a hidden body is itself the match of the rule. -/
def Pattern.Fits (Q : NodeId → Match → Prop) : Pattern → Match → Prop
  | .literal text, m => m.children = [] ∧ m.text = text
  | .charClass cls, m => m.children = [] ∧ ∃ c, cls.accepts c = true ∧ m.text = String.singleton c
  | .sequence items, m => List.Forall₂ Q items m.children
  | .choice alternatives, m => ∃ alternative ∈ alternatives, ∃ child, Q alternative child ∧ m.children = [child]
  | .repetition body min max?, m => (∀ child ∈ m.children, Q body child) ∧ Match.Repeat min max? m.children
  | .predicate _ _, m => m.children = [] ∧ m.stop = m.start
  | .rule body, m => (∃ child, Q body child ∧ child.hidden = false ∧ m.children = [child]) ∨
      (Q body m ∧ m.hidden = true)

/-- The steps of matching keep the property `I` of sessions, provided that all successes they remember have the
property `Q`; and a node has `Q` if its pattern fits it. -/
structure Carried (g : Grammar) (I : Session → Prop) (Q : NodeId → Match → Prop) : Prop where
  seek : ∀ {s : Session} (position : Nat), I s → I (s.seek position)
  emit : ∀ {s : Session} (kind : EventKind) (label : String) (start stop : Nat), I s →
    I (s.emit kind label start stop)
  noteFailure : ∀ {s : Session} {position : Nat}, position ≤ s.length → I s → I (s.noteFailure position)
  restoreFailure : ∀ {s t : Session}, s.length = t.length → I s → I t → I (s.restoreFailure t.furthestFailure?)
  remember : ∀ {s : Session} {id : NodeId} {m : Match} (position : Nat), I s → (m.success = true → Q id m) →
    I (s.remember position id m)
  remembered : ∀ {s : Session} {position : Nat} {id : NodeId} {m : Match}, I s →
    s.memo.get? position id = some m → m.success = true → Q id m
  withStatus : ∀ {id : NodeId} {m : Match} (status : Status), Q id m → Q id (m.withStatus status)
  stamp : ∀ {id : NodeId} {node : Node} {m : Match}, g.node? id = some node → node.pattern.Fits Q m →
    Q id (m.stamp node.origin)

def Grammar.RunsCarry (g : Grammar) (I : Session → Prop) (Q : NodeId → Match → Prop) (depth : Nat) : Prop :=
  ∀ pending id s m t, s.Sound g pending → I s → g.run depth id s = .done (m, t) →
    I t ∧ (m.success = true → Q id m)

variable {g : Grammar} {I : Session → Prop} {Q : NodeId → Match → Prop} {pending : Pending} {depth : Nat}
  {s t : Session} {m : Match}

theorem Session.agreement_le (s : Session) {position : Nat} (expected : List Char) (h : position ≤ s.length) :
    position + s.agreement position expected ≤ s.length := by
  induction expected generalizing position with
  | nil => exact h
  | cons c rest ih =>
    rw [agreement]
    split
    · rename_i hc
      have hlt : position < s.length := (Array.getElem?_eq_some_iff.1 hc).1
      have hrest : position + 1 + s.agreement (position + 1) rest ≤ s.length := ih hlt
      omega
    · exact h

namespace Pattern

theorem matchLiteral_carries (hc : Carried g I Q) {label text : String} (hI : I s) (hs : s.cursor ≤ s.length)
    (h : matchLiteral label text s = .done (m, t)) :
    I t ∧ (m.success = true → (Pattern.literal text).Fits Q m) := by
  unfold matchLiteral at h
  dsimp only at h
  split at h
  · obtain ⟨rfl, rfl⟩ := Prod.mk.inj (Run.done.inj h)
    exact ⟨hc.noteFailure (s.agreement_le _ hs) hI, fun hsuccess => by simp at hsuccess⟩
  · obtain ⟨u, hu, h⟩ := Run.bind_eq_done_iff.1 h
    obtain ⟨_, rfl⟩ := moveToR_eq_done_iff.1 hu
    obtain ⟨rfl, rfl⟩ := Prod.mk.inj (Run.done.inj h)
    exact ⟨hc.emit _ _ _ _ (hc.seek _ hI), fun _ => ⟨rfl, rfl⟩⟩

theorem matchClass_carries (hc : Carried g I Q) {label : String} {cls : CharClass} (hI : I s)
    (hs : s.cursor ≤ s.length) (h : matchClass label cls s = .done (m, t)) :
    I t ∧ (m.success = true → (Pattern.charClass cls).Fits Q m) := by
  unfold matchClass at h
  dsimp only at h
  split at h
  · obtain ⟨rfl, rfl⟩ := Prod.mk.inj (Run.done.inj h)
    exact ⟨hc.noteFailure hs hI, fun hsuccess => by simp at hsuccess⟩
  · rename_i c _
    split at h
    · rename_i haccepts
      obtain ⟨u, hu, h⟩ := Run.bind_eq_done_iff.1 h
      obtain ⟨_, rfl⟩ := moveToR_eq_done_iff.1 hu
      obtain ⟨rfl, rfl⟩ := Prod.mk.inj (Run.done.inj h)
      exact ⟨hc.emit _ _ _ _ (hc.seek _ hI), fun _ => ⟨rfl, c, haccepts, rfl⟩⟩
    · obtain ⟨rfl, rfl⟩ := Prod.mk.inj (Run.done.inj h)
      exact ⟨hc.noteFailure hs hI, fun hsuccess => by simp at hsuccess⟩

/-- What is left of a sequence adds one child for each item. -/
theorem matchItems_carries (hg : g.WellFormed) (hc : Carried g I Q) (hrun : g.RunsCarry I Q depth) {start : Nat}
    {items : List NodeId} {acc : Match} (hs : s.Sound g pending) (hI : I s)
    (h : matchItems (g.run depth) start items acc s = .done (m, t)) :
    I t ∧ (m.success = true →
      ∃ children, m.children = acc.children ++ children ∧ List.Forall₂ Q items children) := by
  induction items generalizing acc s with
  | nil =>
    obtain ⟨rfl, rfl⟩ := Prod.mk.inj (Run.done.inj h)
    exact ⟨hI, fun _ => ⟨[], by simp, .nil⟩⟩
  | cons item rest ih =>
    rw [matchItems] at h
    obtain ⟨⟨child, u⟩, hchild, h⟩ := Run.bind_eq_done_iff.1 h
    obtain ⟨hu, hQ⟩ := hrun pending item s child u hs hI hchild
    have husound := (Grammar.answered_of_run hg hs hchild).2.within.sound
    dsimp only at h
    split at h
    · rename_i hsuccess
      obtain ⟨ht, hrest⟩ := ih husound hu h
      refine ⟨ht, fun hm => ?_⟩
      obtain ⟨children, hchildren, hall⟩ := hrest hm
      refine ⟨child :: children, ?_, .cons (hQ hsuccess) hall⟩
      rw [hchildren, Match.children_push, List.append_assoc, List.singleton_append]
    · obtain ⟨v, hv, h⟩ := Run.bind_eq_done_iff.1 h
      obtain ⟨_, rfl⟩ := moveToR_eq_done_iff.1 hv
      obtain ⟨rfl, rfl⟩ := Prod.mk.inj (Run.done.inj h)
      exact ⟨hc.seek _ hu, fun hsuccess => by simp at hsuccess⟩

theorem matchAlternatives_carries (hg : g.WellFormed) (hc : Carried g I Q) (hrun : g.RunsCarry I Q depth)
    {start : Nat} {alternatives : List NodeId} (hs : s.Sound g pending) (hI : I s)
    (h : matchAlternatives (g.run depth) start alternatives s = .done (m, t)) :
    I t ∧ (m.success = true → (Pattern.choice alternatives).Fits Q m) := by
  induction alternatives generalizing s with
  | nil =>
    obtain ⟨rfl, rfl⟩ := Prod.mk.inj (Run.done.inj h)
    exact ⟨hI, fun hsuccess => by simp at hsuccess⟩
  | cons alternative rest ih =>
    rw [matchAlternatives] at h
    obtain ⟨⟨child, u⟩, hchild, h⟩ := Run.bind_eq_done_iff.1 h
    obtain ⟨hu, hQ⟩ := hrun pending alternative s child u hs hI hchild
    have husound := (Grammar.answered_of_run hg hs hchild).2.within.sound
    dsimp only at h
    split at h
    · rename_i hsuccess
      obtain ⟨rfl, rfl⟩ := Prod.mk.inj (Run.done.inj h)
      exact ⟨hu, fun _ => ⟨alternative, by simp, child, hQ hsuccess, rfl⟩⟩
    · obtain ⟨v, hv, h⟩ := Run.bind_eq_done_iff.1 h
      obtain ⟨hle, rfl⟩ := moveToR_eq_done_iff.1 hv
      obtain ⟨ht, hrest⟩ := ih (husound.seek hle) (hc.seek _ hu) h
      refine ⟨ht, fun hm => ?_⟩
      obtain ⟨other, hother, hfits⟩ := hrest hm
      exact ⟨other, List.mem_cons_of_mem _ hother, hfits⟩

/-- What is left of a repetition after `count` rounds adds one child for each round. Only an empty one can raise
the number of rounds that is given. -/
theorem matchRounds_carries (hg : g.WellFormed) (hc : Carried g I Q) (hrun : g.RunsCarry I Q depth) {body : NodeId}
    {min : Nat} {max? : Option Nat} {rounds count n : Nat} {acc : Match} (hs : s.Sound g pending) (hI : I s)
    (hcount : ∀ max, max? = some max → count ≤ max)
    (h : matchRounds (g.run depth) body min max? rounds count acc s = .done (n, m, t)) :
    I t ∧ ∃ children, m.children = acc.children ++ children ∧ (∀ child ∈ children, Q body child) ∧
      (∀ max, max? = some max → count + children.length ≤ max) ∧
      (∀ child ∈ children.dropLast, child.start < child.stop) ∧
      (n = count + children.length ∨ ∃ last, children.getLast? = some last ∧ last.stop = last.start) := by
  induction rounds generalizing count acc s with
  | zero => nomatch h
  | succ rounds ih =>
    rw [matchRounds] at h
    split at h
    · rename_i hmay
      have hnext : ∀ max, max? = some max → count + 1 ≤ max := by
        rintro max rfl
        have hlt : count < max := by simpa [mayRepeat] using hmay
        exact hlt
      obtain ⟨⟨child, u⟩, hchild, h⟩ := Run.bind_eq_done_iff.1 h
      obtain ⟨hu, hQ⟩ := hrun pending body s child u hs hI hchild
      have hanswered := (Grammar.answered_of_run hg hs hchild).2
      dsimp only at h
      cases hsuccess : child.success with
      | false =>
        rw [hsuccess, Bool.not_false, if_pos rfl] at h
        obtain ⟨v, hv, h⟩ := Run.bind_eq_done_iff.1 h
        obtain ⟨_, rfl⟩ := moveToR_eq_done_iff.1 hv
        obtain ⟨rfl, rfl, rfl⟩ := by simpa using h
        exact ⟨hc.seek _ hu, [], by simp, by simp, by simpa using hcount, by simp, .inl rfl⟩
      | true =>
        rw [hsuccess, Bool.not_true, if_neg Bool.false_ne_true] at h
        split at h
        · rename_i hprogress
          obtain ⟨ht, children, hchildren, hall, hmax, hconsumes, hn⟩ := ih hanswered.within.sound hu hnext h
          refine ⟨ht, child :: children, ?_, ?_, ?_, ?_, ?_⟩
          · rw [hchildren, Match.children_push, List.append_assoc, List.singleton_append]
          · simpa [hQ hsuccess] using hall
          · intro max hm
            have hle := hmax max hm
            rw [List.length_cons]
            omega
          · have hfirst : child.start < child.stop := hanswered.placed.start_eq ▸ hprogress
            cases children with
            | nil => simp
            | cons second others => simpa [hfirst] using hconsumes
          · rcases hn with rfl | ⟨last, hlast, hempty⟩
            · rw [List.length_cons]
              exact .inl (by omega)
            · exact .inr ⟨last, by simp [List.getLast?_cons, hlast], hempty⟩
        · rename_i hstill
          obtain ⟨rfl, rfl, rfl⟩ := by simpa using h
          have hempty : child.stop = child.start := by
            have hle := hanswered.placed.start_le_stop
            rw [hanswered.placed.start_eq]
            omega
          exact ⟨hu, [child], by simp, by simpa using hQ hsuccess, by simpa using hnext, by simp,
            .inr ⟨child, rfl, hempty⟩⟩
    · obtain ⟨rfl, rfl, rfl⟩ := by simpa using h
      exact ⟨hI, [], by simp, by simp, by simpa using hcount, by simp, .inl rfl⟩

theorem matchRepetition_carries (hg : g.WellFormed) (hc : Carried g I Q) (hrun : g.RunsCarry I Q depth)
    {body : NodeId} {min : Nat} {max? : Option Nat} (hs : s.Sound g pending) (hI : I s)
    (h : matchRepetition (g.run depth) body min max? s = .done (m, t)) :
    I t ∧ (m.success = true → (Pattern.repetition body min max?).Fits Q m) := by
  unfold matchRepetition at h
  obtain ⟨⟨n, m', u⟩, hrounds, h⟩ := Run.bind_eq_done_iff.1 h
  obtain ⟨hu, children, hchildren, hall, hmax, hconsumes, hn⟩ :=
    matchRounds_carries hg hc hrun hs hI (fun max _ => Nat.zero_le max) hrounds
  dsimp only at h
  split at h
  · obtain ⟨v, hv, h⟩ := Run.bind_eq_done_iff.1 h
    obtain ⟨_, rfl⟩ := moveToR_eq_done_iff.1 hv
    obtain ⟨rfl, rfl⟩ := Prod.mk.inj (Run.done.inj h)
    exact ⟨hc.seek _ hu, fun hsuccess => by simp at hsuccess⟩
  · rename_i hmin
    obtain ⟨rfl, rfl⟩ := Prod.mk.inj (Run.done.inj h)
    obtain rfl : m'.children = children := by simpa using hchildren
    refine ⟨hu, fun _ => ⟨hall, by simpa using hmax, hconsumes, hn.imp_left ?_⟩⟩
    intro hn
    omega

theorem matchPredicate_carries (hg : g.WellFormed) (hc : Carried g I Q) (hrun : g.RunsCarry I Q depth)
    {body : NodeId} {expected : Bool} (hs : s.Sound g pending) (hI : I s)
    (h : matchPredicate (g.run depth) body expected s = .done (m, t)) :
    I t ∧ (m.success = true → (Pattern.predicate body expected).Fits Q m) := by
  unfold matchPredicate at h
  obtain ⟨⟨child, u⟩, hchild, h⟩ := Run.bind_eq_done_iff.1 h
  obtain ⟨v, hv, h⟩ := Run.bind_eq_done_iff.1 h
  obtain ⟨_, rfl⟩ := moveToR_eq_done_iff.1 hv
  obtain ⟨rfl, rfl⟩ := Prod.mk.inj (Run.done.inj h)
  have hlength : (u.seek s.cursor).length = s.length := (Grammar.answered_of_run hg hs hchild).2.within.length_eq
  have hu := (hrun pending body s child u hs hI hchild).1
  refine ⟨hc.restoreFailure hlength (hc.seek _ hu) hI, ?_⟩
  split
  · exact fun _ => ⟨rfl, rfl⟩
  · exact fun hsuccess => by simp at hsuccess

theorem matchRule_carries (hrun : g.RunsCarry I Q depth) {body : NodeId} (hs : s.Sound g pending) (hI : I s)
    (h : matchRule (g.run depth) body s = .done (m, t)) :
    I t ∧ (m.success = true → (Pattern.rule body).Fits Q m) := by
  unfold matchRule at h
  obtain ⟨⟨child, u⟩, hchild, h⟩ := Run.bind_eq_done_iff.1 h
  obtain ⟨hu, hQ⟩ := hrun pending body s child u hs hI hchild
  dsimp only at h
  split at h
  · rename_i hshown
    obtain ⟨hsuccess, hvisible⟩ := Bool.and_eq_true_iff.1 hshown
    obtain ⟨rfl, rfl⟩ := Prod.mk.inj (Run.done.inj h)
    exact ⟨hu, fun _ => .inl ⟨child, hQ hsuccess, by simpa using hvisible, rfl⟩⟩
  · rename_i hshown
    obtain ⟨rfl, rfl⟩ := Prod.mk.inj (Run.done.inj h)
    refine ⟨hu, fun hsuccess => .inr ⟨hQ hsuccess, ?_⟩⟩
    simpa [hsuccess] using hshown

theorem eval_carries (hg : g.WellFormed) (hc : Carried g I Q) (hrun : g.RunsCarry I Q depth) {label : String}
    {pattern : Pattern} (hs : s.Sound g pending) (hI : I s)
    (h : pattern.eval (g.run depth) label s = .done (m, t)) :
    I t ∧ (m.success = true → pattern.Fits Q m) := by
  cases pattern with
  | literal text => exact matchLiteral_carries hc hI hs.cursor_le h
  | charClass cls => exact matchClass_carries hc hI hs.cursor_le h
  | sequence items =>
    obtain ⟨ht, hm⟩ := matchItems_carries hg hc hrun hs hI h
    refine ⟨ht, fun hsuccess => ?_⟩
    obtain ⟨children, hchildren, hall⟩ := hm hsuccess
    rw [Match.children_empty, List.nil_append] at hchildren
    show List.Forall₂ Q items m.children
    rw [hchildren]
    exact hall
  | choice alternatives => exact matchAlternatives_carries hg hc hrun hs hI h
  | repetition body min max? => exact matchRepetition_carries hg hc hrun hs hI h
  | predicate body expected => exact matchPredicate_carries hg hc hrun hs hI h
  | rule body => exact matchRule_carries hrun hs hI h

end Pattern

namespace Node

variable {id : NodeId} {node : Node}

theorem eval_carries (hg : g.WellFormed) (hc : Carried g I Q) (hrun : g.RunsCarry I Q depth)
    (hnode : g.node? id = some node) (hs : s.Sound g pending) (hI : I s)
    (h : node.eval (g.run depth) s = .done (m, t)) : I t ∧ (m.success = true → Q id m) := by
  unfold Node.eval at h
  obtain ⟨⟨matched, u⟩, hmatched, h⟩ := Run.bind_eq_done_iff.1 h
  obtain ⟨hu, hfits⟩ := Pattern.eval_carries hg hc hrun (hs.alike (alike_emit ..)) (hc.emit _ _ _ _ hI) hmatched
  obtain ⟨rfl, rfl⟩ := Prod.mk.inj (Run.done.inj h)
  refine ⟨?_, fun hsuccess => hc.stamp hnode (hfits hsuccess)⟩
  split
  · exact hc.emit _ _ _ _ hu
  · exact hc.emit _ _ _ _ hu

theorem save_carries (hc : Carried g I Q) (position : Nat) (label : String) (hI : I s)
    (hm : m.success = true → Q id m) : I (s.save position id label m) :=
  hc.emit _ _ _ _ (hc.remember position hI hm)

theorem answerFromMemo_carries (hc : Carried g I Q) {memo : Match} (hs : s.Sound g pending) (hI : I s)
    (hmemo : s.remembered? id = some memo) (h : node.answerFromMemo id memo s = .done (m, t)) :
    I t ∧ (m.success = true → Q id m) := by
  have hmatch : memo.success = true → Q id memo := hc.remembered hI hmemo
  have hmarked : memo.success = true → Q id (memo.withStatus .detected) := fun hsuccess =>
    hc.withStatus _ (hmatch hsuccess)
  rw [answerFromMemo_eq (hs.placed hmemo)] at h
  split at h
  · obtain ⟨rfl, rfl⟩ := Prod.mk.inj (Run.done.inj h)
    exact ⟨hc.emit _ _ _ _ (hc.remember _ (hc.seek _ hI) hmarked), hmarked⟩
  · obtain ⟨rfl, rfl⟩ := Prod.mk.inj (Run.done.inj h)
    exact ⟨hc.emit _ _ _ _ (hc.seek _ hI), hmatch⟩

theorem growRounds_carries (hg : g.WellFormed) (hc : Carried g I Q) (hrun : g.RunsCarry I Q depth)
    (hnode : g.node? id = some node) (hvisible : g.isVisible id = true) {initial rounds iteration k : Nat}
    {committed : Match} (hs : s.Sound g (pending.add initial id)) (hI : I s)
    (hcommitted : committed.success = true → Q id committed)
    (h : growRounds (g.run depth) node id initial rounds iteration committed s = .done (k, m, t)) :
    I t ∧ (m.success = true → Q id m) := by
  induction rounds generalizing iteration committed s with
  | zero => nomatch h
  | succ rounds ih =>
    rw [growRounds] at h
    obtain ⟨u, hu, h⟩ := Run.bind_eq_done_iff.1 h
    obtain ⟨hle, rfl⟩ := moveToR_eq_done_iff.1 hu
    obtain ⟨⟨attempt, v⟩, hattempt, h⟩ := Run.bind_eq_done_iff.1 h
    have hbegin := (hs.alike (alike_emit ..)).seek hle
    have hanswered := Grammar.answered_of_eval hg hnode hbegin hattempt
    obtain ⟨hv, hQ⟩ := eval_carries hg hc hrun hnode hbegin (hc.seek _ (hc.emit _ _ _ _ hI)) hattempt
    have hseed : attempt.success = true → Q id (attempt.withStatus .detected) := fun hsuccess =>
      hc.withStatus _ (hQ hsuccess)
    dsimp only at h
    split at h
    · obtain ⟨_, rfl, rfl⟩ := by simpa using h
      exact ⟨hc.emit _ _ _ _ hv, hcommitted⟩
    · split at h
      · obtain ⟨_, rfl, rfl⟩ := by simpa using h
        exact ⟨hc.emit _ _ _ _ hv, hcommitted⟩
      · have hplaced : attempt.Placed v.input initial (g.Nullable id) := by
          rw [hanswered.within.input_eq]
          exact hanswered.placed
        have haccepted := hanswered.within.sound.alike (alike_emit v (.growAccept iteration) node.label initial
          (attempt.withStatus .detected).stop)
        have hremembered := haccepted.remember hvisible (by simpa using hplaced.withStatus .detected)
          fun hp => absurd (.inr ⟨rfl, rfl⟩) hp
        exact ih (hremembered.alike (alike_save ..)) (save_carries hc _ _ (hc.emit _ _ _ _ hv) hseed) hseed h

/-- The placeholder of a rule is a failure, and what takes its place comes from a trial of the body. -/
theorem answerFirst_carries (hg : g.WellFormed) (hc : Carried g I Q) (hrun : g.RunsCarry I Q depth)
    (hnode : g.node? id = some node) (hvisible : g.isVisible id = true) (hs : s.Sound g pending) (hI : I s)
    (h : node.answerFirst (g.run depth) id s = .done (m, t)) : I t ∧ (m.success = true → Q id m) := by
  unfold answerFirst at h
  obtain ⟨⟨first, u⟩, hfirst, h⟩ := Run.bind_eq_done_iff.1 h
  have hbegin := hs.begin hvisible
  have hplaceholder : I (s.remember s.cursor id (.placeholder s.cursor)) :=
    hc.remember _ hI fun hsuccess => nomatch hsuccess
  have hanswered := Grammar.answered_of_eval hg hnode hbegin hfirst
  obtain ⟨hu, hQ⟩ := eval_carries hg hc hrun hnode hbegin hplaceholder hfirst
  have hsaved : ∀ status, first.success = true → Q id (first.withStatus status) := fun status hsuccess =>
    hc.withStatus _ (hQ hsuccess)
  dsimp only at h
  split at h
  · unfold grow at h
    obtain ⟨⟨k, committed, w⟩, hgrow, h⟩ := Run.bind_eq_done_iff.1 h
    obtain ⟨x, hx, h⟩ := Run.bind_eq_done_iff.1 h
    obtain ⟨_, rfl⟩ := moveToR_eq_done_iff.1 hx
    obtain ⟨rfl, rfl⟩ := Prod.mk.inj (Run.done.inj h)
    have hplaced : first.Placed u.input s.cursor (g.Nullable id) := by
      rw [hanswered.within.input_eq]
      exact hanswered.placed
    have hremembered := hanswered.within.sound.remember hvisible (hplaced.withStatus .detected)
      fun hp => absurd (.inr ⟨rfl, rfl⟩) hp
    obtain ⟨hw, hcommitted⟩ := growRounds_carries hg hc hrun hnode hvisible
      (hremembered.alike ((alike_emit ..).trans (alike_save ..)))
      (hc.emit _ _ _ _ (save_carries hc _ _ hu (hsaved .detected))) (hsaved .detected) hgrow
    exact ⟨hc.seek _ (hc.emit _ _ _ _ hw), hcommitted⟩
  · obtain ⟨rfl, rfl⟩ := Prod.mk.inj (Run.done.inj h)
    exact ⟨save_carries hc _ _ hu (hsaved .impossible), hsaved .impossible⟩

end Node

/-- What the steps of matching keep, and what patterns pass on from components to nodes, is carried along by
runs of every depth. -/
theorem Grammar.run_carries (hg : g.WellFormed) (hc : Carried g I Q) (depth : Nat) : g.RunsCarry I Q depth := by
  induction depth with
  | zero =>
    intro pending id s m t hs hI h
    nomatch h
  | succ depth ih =>
    intro pending id s m t hs hI h
    obtain ⟨node, hnode⟩ := exists_node (answered_of_run hg hs h).1
    rw [run, answer, hnode] at h
    dsimp only at h
    split at h
    · exact Node.eval_carries hg hc ih hnode hs hI h
    · rename_i hhidden
      have hvisible : g.isVisible id = true := (isVisible_iff hnode).2 (by simpa using hhidden)
      have hnoted := hs.alike (alike_emit s .memoCheck node.label s.cursor s.cursor)
      split at h
      · rename_i memo hmemo
        exact Node.answerFromMemo_carries hc hnoted (hc.emit _ _ _ _ hI) hmemo h
      · exact Node.answerFirst_carries hg hc ih hnode hvisible hnoted (hc.emit _ _ _ _ hI) h

/-- So it is in every session in use, if sessions begin with it and keep it when a match is forgotten. -/
theorem Grammar.Reached.carried (hg : g.WellFormed) (hc : Carried g I Q)
    (hstart : ∀ input options, I (Session.start input options)) (hforget : ∀ s id, I s → I (s.forget id))
    (hs : g.Reached s) : I s := by
  induction hs with
  | start input options => exact hstart input options
  | matched hs h ih =>
    obtain ⟨depth, h⟩ := h
    exact (run_carries hg hc depth .none _ _ _ _ (hs.sound hg) ih h).1
  | refused hs h ih =>
    obtain rfl := hs.eq_of_refused hg h
    exact ih
  | moved _ h ih =>
    obtain ⟨_, rfl⟩ := eq_seek_of_moveTo h
    exact hc.seek _ ih
  | advanced _ h ih =>
    obtain ⟨_, rfl⟩ := eq_seek_of_next h
    exact hc.seek _ ih
  | forgot _ ih => exact hforget _ _ ih

end Packrat
