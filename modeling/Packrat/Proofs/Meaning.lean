import Packrat.Proofs.Following
import Mathlib.Data.Finset.Lattice.Fold
import Mathlib.Data.Finset.Prod

/-!
# Meanings

What a node means can be said without a memo table. The patterns are matched as ever, and a visible rule
that is called at a position is given the longest match that can be grown there: its body is tried again
and again, while the calls of the rule inside it, at the same position, are answered with the match that
the last trial gave, and at first with a failure. Such an answer that is given in advance is called a seed.

The evaluator of meanings never reads the memo table or writes to it. Two matches that come from the two
ways of matching differ in what they say about left recursion, and are compared without that.
-/

namespace Packrat

open Session

namespace Match

mutual

/-- The match with one and the same status everywhere. -/
def bare : Match → Match
  | ⟨success, start, stop, text, _, origin?, children⟩ =>
    ⟨success, start, stop, text, .possible, origin?, bareAll children⟩

def bareAll : List Match → List Match
  | [] => []
  | m :: rest => bare m :: bareAll rest

end

/-- The matches are the same tree, statuses aside. -/
def Similar (m n : Match) : Prop := m.bare = n.bare

variable {m n : Match}

theorem bareAll_eq_map (ms : List Match) : bareAll ms = ms.map bare := by
  induction ms with
  | nil => rfl
  | cons m rest ih => rw [bareAll, ih, List.map_cons]

theorem bare_eq (m : Match) : m.bare = { m with status := .possible, children := m.children.map bare } := by
  cases m
  rw [bare, bareAll_eq_map]

theorem bare_push (m child : Match) : (m.push child).bare = m.bare.push child.bare := by
  simp [bare_eq, push]

theorem Similar.refl (m : Match) : m.Similar m := rfl

theorem Similar.symm (h : m.Similar n) : n.Similar m := Eq.symm h

theorem Similar.trans {k : Match} (h : m.Similar n) (h' : n.Similar k) : m.Similar k := Eq.trans h h'

theorem Similar.withStatus_left (h : m.Similar n) (status : Status) : (m.withStatus status).Similar n := by
  rw [Similar, ← h, bare_eq, bare_eq]
  rfl

theorem Similar.success_eq (h : m.Similar n) : m.success = n.success := by
  have hs := congrArg Match.success h
  rwa [bare_eq, bare_eq] at hs

theorem Similar.stop_eq (h : m.Similar n) : m.stop = n.stop := by
  have hs := congrArg Match.stop h
  rwa [bare_eq, bare_eq] at hs

theorem Similar.origin?_eq (h : m.Similar n) : m.origin? = n.origin? := by
  have ho := congrArg Match.origin? h
  rwa [bare_eq, bare_eq] at ho

theorem Similar.congruence : Match.Congruence Similar where
  refl := .refl
  success_eq h := h.success_eq
  start_eq h := by
    have hs := congrArg Match.start h
    rwa [bare_eq, bare_eq] at hs
  stop_eq h := h.stop_eq
  hidden_eq h := by rw [hidden, hidden, h.origin?_eq]
  push h hc := by rw [Similar, bare_push, bare_push, h, hc]
  stamp origin h := by
    have hs := congrArg (stamp · origin) h
    rw [bare_eq, bare_eq] at hs
    rwa [Similar, bare_eq, bare_eq]

end Match

/-- The matches that are given in advance, by position and node. -/
abbrev Seeds := Nat → NodeId → Option Match

namespace Seeds

def none : Seeds := fun _ _ => .none

def set (seeds : Seeds) (position : Nat) (id : NodeId) (m : Match) : Seeds :=
  fun q r => if q = position ∧ r = id then some m else seeds q r

@[simp] theorem set_self (seeds : Seeds) (position : Nat) (id : NodeId) (m : Match) :
    seeds.set position id m position id = some m := if_pos ⟨rfl, rfl⟩

theorem set_of_ne {seeds : Seeds} {position q : Nat} {id r : NodeId} {m : Match}
    (h : ¬ (q = position ∧ r = id)) : seeds.set position id m q r = seeds q r := if_neg h

end Seeds

namespace Node

/-- The trials that are left after `last`, the longest match so far of a rule at `position`. Each one
has that match for a seed. -/
def extend (calls : Match → Evaluator) (node : Node) (position : Nat) : (rounds : Nat) → (last : Match) →
    Session → Answer
  | 0, _, _ => .exhausted
  | rounds + 1, last, s => do
    let s ← s.moveToR position
    let (next, s) ← node.eval (calls last) s
    if next.success && last.stop < next.stop then extend calls node position rounds next s
    else
      let s ← s.moveToR last.stop
      return (last, s)

/-- The longest match of a rule that can be grown at the cursor, beginning with a failure. Any success goes
further than that; `calls` answers the calls inside the body, given the seed. -/
def settle (calls : Match → Evaluator) (node : Node) (s : Session) : Answer := do
  let position := s.cursor
  let (first, s) ← node.eval (calls (.fail position)) s
  if first.success then extend calls node position (s.length - first.stop + 1) first s
  else return (first, s)

end Node

/-- Evaluates nodes without a memo table, with calls nested at most `depth` deep. A visible rule with a seed
at the cursor is given that; one without is settled, which gives it a seed for the time being. -/
def Grammar.meaning (g : Grammar) : (depth : Nat) → Seeds → Evaluator
  | 0, _ => fun _ _ => .exhausted
  | depth + 1, seeds => fun id s =>
    match g.node? id with
    | none => .fault (.unknownNode id) s
    | some node =>
      if node.hidden then node.eval (g.meaning depth seeds) s
      else
        match seeds s.cursor id with
        | some seed => do
          let s ← s.moveToR seed.stop
          return (seed, s)
        | none => node.settle (fun seed => g.meaning depth (seeds.set s.cursor id seed)) s

def Grammar.seeded (g : Grammar) (depth : Nat) (seeds : Seeds) (position : Nat) (id : NodeId) :
    Match → Evaluator := fun seed => g.meaning depth (seeds.set position id seed)

namespace Node

variable {calls : Match → Evaluator} {node : Node} {position rounds : Nat} {last next : Match} {s t : Session}

theorem extend_of_further (hle : position ≤ s.length)
    (hnext : node.eval (calls last) (s.seek position) = .done (next, t)) (hsuccess : next.success = true)
    (hfurther : last.stop < next.stop) :
    node.extend calls position (rounds + 1) last s = node.extend calls position rounds next t := by
  rw [extend, moveToR_of_le hle, Run.done_bind, hnext, Run.done_bind]
  exact if_pos (by simp [hsuccess, hfurther])

theorem extend_of_not_further (hle : position ≤ s.length)
    (hnext : node.eval (calls last) (s.seek position) = .done (next, t))
    (hstill : next.success = true → next.stop ≤ last.stop) (hlast : last.stop ≤ t.length) :
    node.extend calls position (rounds + 1) last s = .done (last, t.seek last.stop) := by
  have hnot : ¬ (next.success && decide (last.stop < next.stop)) = true := by
    intro h
    obtain ⟨hsuccess, hlt⟩ := Bool.and_eq_true_iff.1 h
    exact absurd (of_decide_eq_true hlt) (Nat.not_lt.2 (hstill hsuccess))
  rw [extend, moveToR_of_le hle, Run.done_bind, hnext, Run.done_bind]
  dsimp only
  rw [if_neg hnot, moveToR_of_le hlast]
  rfl

end Node

/-! ## Meanings do not depend on the session -/

structure Session.Beside (s t : Session) : Prop where
  input_eq : s.input = t.input
  cursor_eq : s.cursor = t.cursor

theorem Session.Beside.refl (s : Session) : s.Beside s := ⟨rfl, rfl⟩

theorem Session.Beside.congruence : Session.Congruence Session.Beside where
  input_eq h := h.input_eq
  cursor_eq h := h.cursor_eq
  seek _ h := ⟨h.input_eq, rfl⟩
  emit _ _ _ _ h := ⟨by simpa using h.input_eq, by simpa using h.cursor_eq⟩
  noteFailure _ h := ⟨h.input_eq, h.cursor_eq⟩
  restoreFailure h _ := ⟨h.input_eq, h.cursor_eq⟩

namespace Node

variable {S : Session → Session → Prop} {calls calls' : Match → Evaluator} {node : Node}

theorem extend_follows (hS : Session.Congruence S) (heval : ∀ seed,
      Follows S (fun _ => True) False Eq (node.eval (calls seed)) (node.eval (calls' seed)))
    (position rounds : Nat) (last : Match) :
    Follows S (fun _ => True) False Eq (node.extend calls position rounds last)
      (node.extend calls' position rounds last) := by
  induction rounds generalizing last with
  | zero => exact fun s a s' h => nomatch h
  | succ rounds ih =>
    refine Follows.seek hS position (Follows.bind (fun _ => rfl) (heval last)
      (k := fun next s => if next.success && last.stop < next.stop then
        node.extend calls position rounds next s else s.moveToR last.stop >>= fun s => .done (last, s))
      (l := fun next s => if next.success && last.stop < next.stop then
        node.extend calls' position rounds next s else s.moveToR last.stop >>= fun s => .done (last, s)) ?_)
    rintro next _ rfl
    split
    · exact ih next
    · exact Follows.seek hS _ (.pure rfl)

theorem settle_follows (hS : Session.Congruence S) (heval : ∀ seed,
      Follows S (fun _ => True) False Eq (node.eval (calls seed)) (node.eval (calls' seed))) :
    Follows S (fun _ => True) False Eq (node.settle calls) (node.settle calls') := by
  refine Follows.at_cursor hS (x := fun position s => node.eval (calls (.fail position)) s >>= fun a =>
      if a.1.success then node.extend calls position (a.2.length - a.1.stop + 1) a.1 a.2 else .done a)
    (y := fun position s => node.eval (calls' (.fail position)) s >>= fun a =>
      if a.1.success then node.extend calls' position (a.2.length - a.1.stop + 1) a.1 a.2 else .done a)
    fun position => ?_
  refine Follows.bind (fun _ => rfl) (heval _)
    (k := fun first s => if first.success then
      node.extend calls position (s.length - first.stop + 1) first s else .done (first, s))
    (l := fun first s => if first.success then
      node.extend calls' position (s.length - first.stop + 1) first s else .done (first, s)) ?_
  rintro first _ rfl
  split
  · exact Follows.at_length hS (x := fun length => node.extend calls position (length - first.stop + 1) first)
      (y := fun length => node.extend calls' position (length - first.stop + 1) first)
      fun _ => extend_follows hS heval position _ first
  · exact .pure rfl

end Node

namespace Grammar

variable {S : Session → Session → Prop} {g : Grammar} {depth depth' : Nat}

/-- A meaning that is found from a session is found from every session beside it, at every greater depth. -/
theorem meaning_follows (hS : Session.Congruence S) (seeds : Seeds) (id : NodeId) (hle : depth ≤ depth') :
    Follows S (fun _ => True) False Eq (g.meaning depth seeds id) (g.meaning depth' seeds id) := by
  induction depth generalizing depth' seeds id with
  | zero => exact fun s a s' h => nomatch h
  | succ depth ih =>
    obtain ⟨depth', rfl⟩ : ∃ k, depth' = k + 1 := ⟨depth' - 1, by omega⟩
    have heval : ∀ node : Node, ∀ seeds, Follows S (fun _ => True) False Eq (node.eval (g.meaning depth seeds))
        (node.eval (g.meaning depth' seeds)) := fun node seeds =>
      Node.eval_follows hS .eq node fun c _ => ih seeds c (Nat.le_of_succ_le_succ hle)
    unfold meaning
    cases g.node? id with
    | none => exact fun s a s' h => nomatch h
    | some node =>
      dsimp only
      split
      · exact heval node seeds
      · refine Follows.at_cursor hS (x := fun position s =>
            match seeds position id with
            | some seed => s.moveToR seed.stop >>= fun s => .done (seed, s)
            | none => node.settle (fun seed => g.meaning depth (seeds.set position id seed)) s)
          (y := fun position s =>
            match seeds position id with
            | some seed => s.moveToR seed.stop >>= fun s => .done (seed, s)
            | none => node.settle (fun seed => g.meaning depth' (seeds.set position id seed)) s)
          fun position => ?_
        cases seeds position id with
        | some seed => exact Follows.seek hS _ (.pure rfl)
        | none => exact Node.settle_follows hS fun seed => heval node _

end Grammar

/-- A call in `s` gives `m`, statuses aside, and leaves the cursor at its end. -/
def Gives (x : Session → Answer) (s : Session) (m : Match) : Prop :=
  (x s).Yields False False fun a => m.Similar a.1 ∧ a.2.input = s.input ∧ a.2.cursor = m.stop

namespace Gives

variable {x y : Session → Answer} {s t : Session} {m n : Match}

theorem follows (hxy : Follows Session.Beside (fun _ => True) False Eq x y) (h : Gives x s m)
    (hst : s.Beside t) : Gives y t m := by
  obtain ⟨⟨k, s'⟩, hx, hk, hinput, hcursor⟩ := h.exists_done
  refine ((hxy s k s' hx).2 t hst trivial).mono ?_
  rintro ⟨k', t'⟩ ⟨rfl, ht'⟩
  exact ⟨hk, by rw [← ht'.input_eq, hinput, hst.input_eq], by rw [← ht'.cursor_eq, hcursor]⟩

theorem similar (hm : Gives x s m) (hn : Gives x s n) : m.Similar n := by
  obtain ⟨⟨k, s'⟩, hx, hk, _⟩ := hm.exists_done
  exact hk.trans (hn.of_done hx).1.symm

theorem of_similar (h : Gives x s m) (hmn : m.Similar n) : Gives x s n :=
  h.mono fun _ ⟨hk, hinput, hcursor⟩ => ⟨hmn.symm.trans hk, hinput, hcursor.trans hmn.stop_eq⟩

end Gives

namespace Grammar

variable {S : Session → Session → Prop} {g : Grammar} {seeds : Seeds} {id : NodeId} {depth depth' : Nat}
  {s t : Session} {m : Match}

def Means (g : Grammar) (seeds : Seeds) (id : NodeId) (s : Session) (m : Match) : Prop :=
  ∃ depth, Gives (g.meaning depth seeds id) s m

theorem gives_meaning (h : Gives (g.meaning depth seeds id) s m) (hst : s.Beside t) (hle : depth ≤ depth') :
    Gives (g.meaning depth' seeds id) t m :=
  h.follows (meaning_follows Session.Beside.congruence seeds id hle) hst

theorem Means.beside (h : g.Means seeds id s m) (hst : s.Beside t) : g.Means seeds id t m := by
  obtain ⟨depth, h⟩ := h
  exact ⟨depth, gives_meaning h hst (Nat.le_refl _)⟩

theorem meaning_mono (h : g.meaning depth seeds id s = .done (m, t)) (hle : depth ≤ depth') :
    g.meaning depth' seeds id s = .done (m, t) := by
  obtain ⟨⟨m', t'⟩, h', rfl, rfl⟩ := ((meaning_follows .eq seeds id hle s m t h).2 s rfl trivial).exists_done
  exact h'

theorem means_of_hidden {node : Node} (hnode : g.node? id = some node) (hhidden : node.hidden = true)
    (h : ∃ depth, Gives (node.eval (g.meaning depth seeds)) s m) : g.Means seeds id s m := by
  obtain ⟨depth, h⟩ := h
  have heq : g.meaning (depth + 1) seeds id s = node.eval (g.meaning depth seeds) s := by
    simp [meaning, hnode, hhidden]
  refine ⟨depth + 1, ?_⟩
  rwa [Gives, heq]

theorem means_of_seed {node : Node} {seed : Match} (hnode : g.node? id = some node) (hhidden : node.hidden = false)
    (hseed : seeds s.cursor id = some seed) (hm : m.Similar seed) (hle : m.stop ≤ s.length) :
    g.Means seeds id s m := by
  have heq : g.meaning 1 seeds id s = .done (seed, s.seek seed.stop) := by
    simp [meaning, hnode, hhidden, hseed, moveToR_of_le (hm.stop_eq ▸ hle)]
  refine ⟨1, ?_⟩
  rw [Gives, heq]
  exact ⟨hm, rfl, hm.stop_eq.symm⟩

theorem means_of_settle {node : Node} (hnode : g.node? id = some node) (hhidden : node.hidden = false)
    (hnone : seeds s.cursor id = none)
    (h : ∃ depth, Gives (node.settle (g.seeded depth seeds s.cursor id)) s m) : g.Means seeds id s m := by
  obtain ⟨depth, h⟩ := h
  have heq : g.meaning (depth + 1) seeds id s = node.settle (g.seeded depth seeds s.cursor id) s := by
    simp [meaning, hnode, hhidden, hnone]
    rfl
  refine ⟨depth + 1, ?_⟩
  rwa [Gives, heq]

/-- What answers inside a rule that is being settled goes on to do so at every greater depth. -/
theorem eval_seeded_follows (hS : Session.Congruence S) (node : Node) (seeds : Seeds) (position : Nat) (id : NodeId)
    (hle : depth ≤ depth') (seed : Match) :
    Follows S (fun _ => True) False Eq (node.eval (g.seeded depth seeds position id seed))
      (node.eval (g.seeded depth' seeds position id seed)) :=
  Node.eval_follows hS .eq node fun c _ => meaning_follows hS _ c hle

theorem eval_seeded_mono {position : Nat} {node : Node} {seed : Match}
    (h : node.eval (g.seeded depth seeds position id seed) s = .done (m, t)) (hle : depth ≤ depth') :
    node.eval (g.seeded depth' seeds position id seed) s = .done (m, t) := by
  obtain ⟨⟨m', t'⟩, h', rfl, rfl⟩ :=
    ((eval_seeded_follows .eq node seeds position id hle seed s m t h).2 s rfl trivial).exists_done
  exact h'

section Settling

variable {node : Node} {position rounds : Nat} {last next first : Match}

/-- What is grown from a longer match is grown from the match before it. -/
theorem exists_extend_of_further (hle : position ≤ s.length)
    (hnext : node.eval (g.seeded depth seeds position id last) (s.seek position) = .done (next, t))
    (hinput : t.input = s.input) (hsuccess : next.success = true) (hfurther : last.stop < next.stop)
    (hrest : ∃ depth', Gives (node.extend (g.seeded depth' seeds position id) position rounds next) t m) :
    ∃ depth', Gives (node.extend (g.seeded depth' seeds position id) position (rounds + 1) last) s m := by
  obtain ⟨depth', hrest⟩ := hrest
  refine ⟨max depth depth', ?_⟩
  have hgrown : Gives (node.extend (g.seeded (max depth depth') seeds position id) position rounds next) t m :=
    hrest.follows (Node.extend_follows Session.Beside.congruence
      (eval_seeded_follows Session.Beside.congruence node seeds position id (Nat.le_max_right _ _)) _ _ _) (.refl t)
  rw [Gives, Node.extend_of_further hle (eval_seeded_mono hnext (Nat.le_max_left _ _)) hsuccess hfurther]
  exact hgrown.mono fun a ⟨hm, ha, hcursor⟩ => ⟨hm, ha.trans hinput, hcursor⟩

/-- A match is what is grown from it if the next trial does not go further. -/
theorem exists_extend_of_not_further
    (hnext : Gives (node.eval (g.seeded depth seeds position id last)) (s.seek position) next)
    (hle : position ≤ s.length) (hstill : next.success = true → next.stop ≤ last.stop) (hlast : last.stop ≤ s.length)
    (hm : m.Similar last) :
    ∃ depth', Gives (node.extend (g.seeded depth' seeds position id) position (rounds + 1) last) s m := by
  obtain ⟨⟨other, t⟩, hother, hsimilar, hinput, _⟩ := hnext.exists_done
  refine ⟨depth, ?_⟩
  have hstill' : other.success = true → other.stop ≤ last.stop := by
    intro hsuccess
    rw [← hsimilar.stop_eq]
    exact hstill (hsimilar.success_eq.trans hsuccess)
  have hlast' : last.stop ≤ t.length := length_eq (s := s) hinput.symm ▸ hlast
  rw [Gives, Node.extend_of_not_further hle hother hstill' hlast']
  exact ⟨hm, hinput, hm.stop_eq.symm⟩

/-- What is grown from the first success is the match of the rule. -/
theorem exists_settle_of_success
    (hfirst : node.eval (g.seeded depth seeds s.cursor id (.fail s.cursor)) s = .done (first, t))
    (hinput : t.input = s.input) (hsuccess : first.success = true)
    (hrest : ∃ depth', Gives (node.extend (g.seeded depth' seeds s.cursor id) s.cursor
      (t.length - first.stop + 1) first) t m) :
    ∃ depth', Gives (node.settle (g.seeded depth' seeds s.cursor id)) s m := by
  obtain ⟨depth', hrest⟩ := hrest
  refine ⟨max depth depth', ?_⟩
  have hgrown : Gives (node.extend (g.seeded (max depth depth') seeds s.cursor id) s.cursor
      (t.length - first.stop + 1) first) t m :=
    hrest.follows (Node.extend_follows Session.Beside.congruence
      (eval_seeded_follows Session.Beside.congruence node seeds s.cursor id (Nat.le_max_right _ _)) _ _ _) (.refl t)
  rw [Gives, Node.settle]
  dsimp only
  rw [eval_seeded_mono hfirst (Nat.le_max_left _ _), Run.done_bind]
  dsimp only
  rw [if_pos hsuccess]
  exact hgrown.mono fun a ⟨hm, ha, hcursor⟩ => ⟨hm, ha.trans hinput, hcursor⟩

theorem exists_settle_of_failure
    (hfirst : Gives (node.eval (g.seeded depth seeds s.cursor id (.fail s.cursor))) s m)
    (hfail : m.success = false) : ∃ depth', Gives (node.settle (g.seeded depth' seeds s.cursor id)) s m := by
  refine ⟨depth, ?_⟩
  obtain ⟨⟨first, t⟩, h, hm, hrest⟩ := hfirst.exists_done
  have hfirstFail : first.success = false := hm.success_eq.symm.trans hfail
  rw [Gives, Node.settle]
  dsimp only
  rw [h, Run.done_bind]
  dsimp only
  rw [if_neg (by simp [hfirstFail])]
  exact ⟨hm, hrest⟩

/-- A rule whose trials all give the same settles for that. -/
theorem exists_settle_of_same
    (hfirst : Gives (node.eval (g.seeded depth seeds s.cursor id (.fail s.cursor))) s m)
    (hsame : m.success = true → ∀ seed u, m.Similar seed → s.Beside u →
      ∃ depth', Gives (node.eval (g.seeded depth' seeds s.cursor id seed)) u m)
    (hcursor : s.cursor ≤ s.length) (hstop : m.stop ≤ s.length) :
    ∃ depth', Gives (node.settle (g.seeded depth' seeds s.cursor id)) s m := by
  by_cases hsuccess : m.success = true
  · obtain ⟨⟨first, t⟩, h, hsimilar, hinput, _⟩ := hfirst.exists_done
    have hlength : t.length = s.length := length_eq hinput
    obtain ⟨depth', hagain⟩ := hsame hsuccess first (t.seek s.cursor) hsimilar ⟨hinput.symm, rfl⟩
    refine exists_settle_of_success h hinput (hsimilar.success_eq ▸ hsuccess) ?_
    refine exists_extend_of_not_further hagain ?_ (fun _ => Nat.le_of_eq hsimilar.stop_eq) ?_ hsimilar
    · rwa [hlength]
    · rwa [← hsimilar.stop_eq, hlength]
  · exact exists_settle_of_failure hfirst (by simpa using hsuccess)

end Settling

/-- There are only so many nodes and positions, and so the meanings of some nodes, all over an input, are
found at a common depth. -/
theorem exists_depth (g : Grammar) (seeds : Seeds) (cs : List NodeId) (s : Session) :
    ∃ depth, ∀ c ∈ cs, ∀ t m, t.input = s.input → t.cursor ≤ s.length → g.Means seeds c t m →
      Gives (g.meaning depth seeds c) t m := by
  have hone : ∀ c q, ∃ depth, ∀ t m, t.input = s.input → t.cursor = q → g.Means seeds c t m →
      Gives (g.meaning depth seeds c) t m := by
    intro c q
    by_cases h : ∃ u n, u.input = s.input ∧ u.cursor = q ∧ g.Means seeds c u n
    · obtain ⟨u, n, huinput, huq, depth, hu⟩ := h
      refine ⟨depth, ?_⟩
      rintro t m htinput htq ⟨depth', hm⟩
      have hut : u.Beside t := ⟨huinput.trans htinput.symm, huq.trans htq.symm⟩
      have hn : Gives (g.meaning (max depth depth') seeds c) t n := gives_meaning hu hut (Nat.le_max_left _ _)
      have hm' : Gives (g.meaning (max depth depth') seeds c) t m :=
        gives_meaning hm (.refl t) (Nat.le_max_right _ _)
      exact (gives_meaning hu hut (Nat.le_refl _)).of_similar (hn.similar hm')
    · exact ⟨0, fun t m htinput htq hm => absurd ⟨t, m, htinput, htq, hm⟩ h⟩
  choose depth hdepth using hone
  refine ⟨(cs.toFinset ×ˢ Finset.range (s.length + 1)).sup fun x => depth x.1 x.2, ?_⟩
  intro c hc t m hinput hle hm
  have hmem : (c, t.cursor) ∈ cs.toFinset ×ˢ Finset.range (s.length + 1) := by
    rw [Finset.mem_product, List.mem_toFinset, Finset.mem_range]
    exact ⟨hc, Nat.lt_succ_of_le hle⟩
  have hle' := Finset.le_sup (f := fun x : NodeId × Nat => depth x.1 x.2) hmem
  exact gives_meaning (hdepth c t.cursor t m hinput rfl hm) (.refl t) hle'

end Grammar

end Packrat
