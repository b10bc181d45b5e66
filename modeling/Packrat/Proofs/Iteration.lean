import Packrat.Proofs.Contexts
import Packrat.Proofs.PatternSteps
import Packrat.Proofs.RecursiveBody

/-!
# Left recursion is iteration

A rule that begins with itself, with something behind it, or else with a base, matches what a base matches
and then, over and over, what may stand behind the rule. Growing the rule and repeating what stands behind
it go in step: each accepted attempt is one round of the repetition, and the tree of the rule leans to the
left, one level for each round.
-/

namespace Packrat

open Session Pattern

namespace Match

structure IsResult (origin : Origin) (start stop : Nat) (m : Match) : Prop where
  success : m.success = true
  origin?_eq : m.origin? = some origin
  start_eq : m.start = start
  stop_eq : m.stop = stop

/-- Matches of one node inside each other, all from `start` on: the innermost stands on what `base` stands
on, and each one around it has, as its only child, the one inside it with the match of one more iteration
behind it, and ends where that iteration ended. -/
inductive LeftComb (origin : Origin) (start : Nat) (base : Match) : List Match → Match → Prop
  | base {m : Match} (hm : m.IsResult origin start base.stop) (hchildren : m.children = base.children) :
      LeftComb origin start base [] m
  | grown {iterations : List Match} {inner iteration alternative other m : Match}
      (hinner : LeftComb origin start base iterations inner) (hm : m.IsResult origin start iteration.stop)
      (hchildren : m.children = [alternative]) (hiteration : iteration.children = [other])
      (halternative : alternative.children = inner :: other.children) :
      LeftComb origin start base (iterations ++ [iteration]) m

theorem LeftComb.isResult {origin : Origin} {start : Nat} {base m : Match} {iterations : List Match}
    (h : LeftComb origin start base iterations m) : m.IsResult origin start m.stop := by
  cases h with
  | base hm _ => exact { hm with stop_eq := rfl }
  | grown _ hm _ _ _ => exact { hm with stop_eq := rfl }

end Match

namespace Grammar

variable {g : Grammar} {rule id body iter : NodeId} {node : Node} {depth depth' position : Nat}
  {s s₂ t t₂ u : Session} {m m₂ n : Match} {recs bases others alternatives : List NodeId}
  {tails : List (List NodeId)}

/-- A visible rule whose body is a choice: first the rule itself with each of `tails` behind it, and then
each of `bases`. The rule cannot be reached from any of these. -/
structure Recursive (g : Grammar) (rule : NodeId) (tails : List (List NodeId)) (bases : List NodeId) : Prop where
  visible : g.isVisible rule = true
  ne_nil : tails ≠ []
  pattern : ∃ body recs, g.HasPattern rule (.rule body) ∧ g.HasPattern body (.choice (recs ++ bases)) ∧
    List.Forall₂ (fun id tail => g.HasPattern id (.sequence (rule :: tail))) recs tails
  apart_tail : ∀ tail ∈ tails, ∀ x ∈ tail, g.Apart rule x
  apart_base : ∀ x ∈ bases, g.Apart rule x

/-- A choice between `bases`, and then, as often as possible, a choice between `tails`. -/
def Iterative (g : Grammar) (loop : NodeId) (tails : List (List NodeId)) (bases : List NodeId) : Prop :=
  ∃ first rest iter others, g.HasPattern loop (.sequence [first, rest]) ∧
    g.HasPattern first (.choice bases) ∧ g.HasPattern rest (.repetition iter 0 none) ∧
    g.HasPattern iter (.choice others) ∧
    List.Forall₂ (fun id tail => g.HasPattern id (.sequence tail)) others tails

theorem eval_choice (hg : g.WellFormed) (hpattern : node.pattern = .rule body)
    (hbody : g.HasPattern body (.choice alternatives)) (h : node.eval (g.run (depth + 1)) s = .done (m, t)) :
    ∃ s' n t', s'.Alike s ∧ matchAlternatives (g.run depth) s.cursor alternatives s' = .done (n, t') ∧
      t.Alike t' ∧ m.success = n.success ∧ m.stop = n.stop ∧ m.children = n.children ∧
      m.origin? = some node.origin := by
  rw [Node.eval, hpattern] at h
  obtain ⟨⟨m', t'⟩, hm', h⟩ := Run.bind_eq_done_iff.1 h
  rw [eval, matchRule] at hm'
  obtain ⟨⟨child, u⟩, hchild, hm'⟩ := Run.bind_eq_done_iff.1 hm'
  obtain ⟨d, label, s', n, u', origin, hd, hs', hn, hhidden, rfl, hu⟩ :=
    run_pattern hg hbody (by simp [Pattern.kind]) hchild
  obtain rfl := Nat.succ.inj hd
  have hnot : ((n.stamp origin).success && !(n.stamp origin).hidden) = false := by
    simp [Match.hidden, Match.stamp, hhidden]
  dsimp only at hm'
  rw [hnot, if_neg Bool.false_ne_true] at hm'
  obtain ⟨rfl, rfl⟩ := Prod.mk.inj (Run.done.inj hm')
  obtain ⟨rfl, rfl⟩ := Prod.mk.inj (Run.done.inj h)
  rw [eval, hs'.cursor_eq, cursor_emit] at hn
  refine ⟨s', n, u', hs'.trans (alike_emit ..), hn, ?_, rfl, rfl, rfl, rfl⟩
  split
  · exact (alike_emit ..).trans hu
  · exact (alike_emit ..).trans hu

/-- The base alternatives, tried again later, give the same as before. -/
theorem bases_replay (hg : g.WellFormed) {pending : Pending} (hapart : ∀ x ∈ bases, g.Apart rule x)
    (hs : s.Sound g pending) (h : matchAlternatives (g.run depth) position bases s = .done (m, t))
    (hinput : s.input = s₂.input) (hcursor : s.cursor = s₂.cursor) (hfinal : t.memo.FinalIn (g.Apart rule) s₂.memo)
    (h₂ : matchAlternatives (g.run depth) position bases s₂ = .done (m₂, t₂)) : m₂ = m := by
  have hfollow : Follows (Session.Again g pending s₂.memo) (fun u => u.FinalIn (g.Apart rule) s₂.memo) False Eq
      (matchAlternatives (g.run depth) position bases) (matchAlternatives (g.run depth) position bases) :=
    matchAlternatives_follows (Session.Again.congruence g pending s₂.memo) .eq position
      fun c hc => run_replays hg Apart.component s₂.memo (hapart c hc)
  exact (((hfollow s m t h).2 s₂ ⟨hs, hinput, hcursor, rfl⟩ hfinal).of_done h₂).1.symm

/-- The rule is about to be tried again in `s`, with `committed` as its entry, and the repetition has come as
far as `committed` in `s₂`. All that has been in the table `first` is still there. -/
structure InStep (g : Grammar) (rule : NodeId) (position : Nat) (first : MemoTable) (committed : Match)
    (s s₂ : Session) : Prop where
  sound : s.Sound g (Pending.none.add position rule)
  sound₂ : s₂.Sound g .none
  entry_eq : s.memo.get? position rule = some committed
  cursor_eq : s₂.cursor = committed.stop
  share : s.ShareOn (g.Apart rule) s₂
  final : first.FinalIn (g.Apart rule) s.memo

theorem InStep.restart {first : MemoTable} {committed : Match} (h : g.InStep rule position first committed s s₂)
    (hle : position ≤ s.length) (hu : u.Alike (s.seek position)) : g.InStep rule position first committed u s₂ where
  sound := (h.sound.seek hle).alike hu
  sound₂ := h.sound₂
  entry_eq := hu.memo_eq ▸ h.entry_eq
  cursor_eq := h.cursor_eq
  share := h.share.of_eq hu.input_eq hu.memo_eq rfl rfl
  final := by
    rw [hu.memo_eq]
    exact h.final

/-- A longer match takes the place of the one before, and the repetition has come as far. -/
theorem InStep.accept {first : MemoTable} {committed : Match} (hvisible : g.isVisible rule = true)
    (h : g.InStep rule position first committed s (s₂.seek committed.stop)) (hs₂ : s₂.Sound g .none)
    (hplaced : m.Placed s.input position (g.Nullable rule)) (hcursor : s₂.cursor = m.stop)
    (hu : u.Alike (s.remember position rule m)) : g.InStep rule position first m u s₂ where
  sound := (h.sound.remember hvisible hplaced fun hp => absurd (.inr ⟨rfl, rfl⟩) hp).alike hu
  sound₂ := hs₂
  entry_eq := by
    rw [hu.memo_eq]
    exact MemoTable.get?_insert_self (MemoTable.lt_positions_of_get? h.entry_eq)
  cursor_eq := hcursor
  share := by
    refine ShareOn.trans ?_ (h.share.of_eq rfl rfl rfl rfl)
    exact shareOn_insert hu.input_eq (hu.memo_eq.trans (memo_remember ..))
  final := by
    rw [hu.memo_eq]
    exact h.final.insert (fun hr => hr .refl) _ _

section

variable (hg : g.WellFormed) (hnode : g.node? rule = some node) (hvisible : g.isVisible rule = true)
  (hpattern : node.pattern = .rule body) (hbody : g.HasPattern body (.choice (recs ++ bases)))
  (hiter : g.HasPattern iter (.choice others))
  (hrecs : List.Forall₂ (fun id tail => g.HasPattern id (.sequence (rule :: tail))) recs tails)
  (hothers : List.Forall₂ (fun id tail => g.HasPattern id (.sequence tail)) others tails)
  (hapart : ∀ tail ∈ tails, ∀ x ∈ tail, g.Apart rule x)

include hg hnode hvisible hpattern hbody hiter hrecs hothers hapart

/-- One more attempt of the rule and one more round of the repetition: both find the same, or the repetition
is over and the attempt has found at most a base. -/
theorem InStep.round {first : MemoTable} {base : Match} {committed child attempt : Match} {v v₂ : Session}
    (hreplay : ∀ (s t : Session) m, s.input = u.input → s.cursor = position →
      first.FinalIn (g.Apart rule) s.memo →
        matchAlternatives (g.run depth) position bases s = .done (m, t) → m.stop = base.stop)
    (hstep : g.InStep rule position first committed u s₂) (hcursor : u.cursor = position)
    (hsuccess : committed.success = true) (hstatus : committed.status = .detected)
    (h : node.eval (g.run (depth + 1)) u = .done (attempt, v)) (h₂ : g.run depth' iter s₂ = .done (child, v₂)) :
    (child.success = true ∧ child.start = committed.stop ∧ attempt.IsResult node.origin position child.stop ∧
        g.InStep rule position first committed v (v₂.seek committed.stop) ∧ v₂.cursor = child.stop ∧
        ∃ alternative other, attempt.children = [alternative] ∧ child.children = [other] ∧
          alternative.children = committed :: other.children) ∨
      (child.success = false ∧ attempt.stop = base.stop) := by
  have hanswered := answered_of_eval hg hnode hstep.sound h
  have hanswered₂ := (answered_of_run hg hstep.sound₂ h₂).2
  obtain ⟨u', n, v', hu', hn, hv', hnsuccess, hnstop, hnchildren, horigin⟩ := eval_choice hg hpattern hbody h
  obtain ⟨d, label, s₂', n₂, v₂', origin, rfl, hs₂', hn₂, _, rfl, hv₂'⟩ :=
    run_pattern hg hiter (by simp [Pattern.kind]) h₂
  have htrial : g.Trial rule position committed u' :=
    Trial.alike ⟨hstep.sound, hcursor, hstep.entry_eq⟩ hu'
  have hcursor₂ : s₂'.cursor = committed.stop := hs₂'.cursor_eq.trans hstep.cursor_eq
  rw [hcursor] at hn
  rw [eval, hcursor₂] at hn₂
  have hshare : u'.ShareOn (g.Apart rule) s₂' :=
    hstep.share.of_eq hu'.input_eq hu'.memo_eq hs₂'.input_eq hs₂'.memo_eq
  rcases htrial.alternatives_grow hg hvisible hrecs hothers hapart hsuccess hstatus hcursor₂ hshare hn hn₂ with
    ⟨hs₂success, hssuccess, hstop, hshare', hentry, alternative, other, hm, hm₂, halt⟩ |
    ⟨hfail, w, hw, hwtrial, hwkept, hwinput⟩
  · refine .inl ⟨hs₂success, ?_, ⟨?_, horigin, ?_, ?_⟩, ⟨?_, ?_, ?_, rfl, ?_, ?_⟩, ?_, alternative, other, ?_, hm₂,
      halt⟩
    · rw [hanswered₂.placed.start_eq, hstep.cursor_eq]
    · rw [hnsuccess, hssuccess]
    · rw [hanswered.placed.start_eq, hcursor]
    · rw [hnstop, hstop]
      rfl
    · exact hanswered.within.sound
    · refine hanswered₂.within.sound.seek ?_
      rw [hanswered₂.within.length_eq, ← hstep.cursor_eq]
      exact hstep.sound₂.cursor_le
    · rw [hv'.memo_eq, hentry]
    · exact hshare'.of_eq hv'.input_eq hv'.memo_eq hv₂'.input_eq hv₂'.memo_eq
    · exact hstep.final.kept hanswered.within.kept
    · rw [hanswered₂.cursor_eq]
    · rw [hnchildren, hm]
  · refine .inr ⟨hfail, ?_⟩
    rw [hnstop]
    refine hreplay w v' n ?_ hwtrial.cursor_eq ?_ hw
    · rw [hwinput, hu'.input_eq]
    · exact hstep.final.kept (hu'.memo_eq ▸ hwkept)

/-- A rule that is growing and a repetition that is in step with it stay in step to the end. -/
theorem growRounds_iterates {first : MemoTable} {base : Match} {input : Array Char}
    (hreplay : ∀ (s t : Session) m, s.input = input → s.cursor = position →
      first.FinalIn (g.Apart rule) s.memo →
        matchAlternatives (g.run depth) position bases s = .done (m, t) → m.stop = base.stop)
    {rounds rounds₂ iteration count count' k : Nat} {committed acc : Match} {iterations : List Match}
    (hstep : g.InStep rule position first committed s s₂) (hinput : s.input = input)
    (hstatus : committed.status = .detected)
    (hcomb : Match.LeftComb node.origin position base iterations committed)
    (hle : base.stop ≤ committed.stop) (hacc : acc.stop = committed.stop)
    (h : node.growRounds (g.run (depth + 1)) rule position rounds iteration committed s = .done (k, m, t))
    (h₂ : matchRounds (g.run depth') iter 0 none rounds₂ count acc s₂ = .done (count', m₂, t₂)) :
    ∃ more, m₂.children = acc.children ++ more ∧ m.stop = m₂.stop ∧
      Match.LeftComb node.origin position base (iterations ++ more.filter fun i => !i.isEmpty) m := by
  induction rounds generalizing rounds₂ iteration count committed acc iterations s s₂ with
  | zero => nomatch h
  | succ rounds ih =>
    cases rounds₂ with
    | zero => nomatch h₂
    | succ rounds₂ =>
      obtain ⟨u, attempt, v, hu, hlen, hattempt, hcase⟩ := Node.growRounds_cases h
      rw [matchRounds, if_pos (by simp [mayRepeat])] at h₂
      obtain ⟨⟨child, v₂⟩, hchild, h₂⟩ := Run.bind_eq_done_iff.1 h₂
      have hstep' := hstep.restart hlen hu
      have huinput : u.input = input := hu.input_eq.trans hinput
      have hround := hstep'.round hg hnode hvisible hpattern hbody hiter hrecs hothers hapart
        (fun w w' n hw => hreplay w w' n (hw.trans huinput)) hu.cursor_eq hcomb.isResult.success hstatus hattempt
        hchild
      have hanswered := answered_of_eval hg hnode hstep'.sound hattempt
      have hanswered₂ := (answered_of_run hg hstep.sound₂ hchild).2
      have hstartstop := hanswered₂.placed.start_le_stop
      rw [hstep.cursor_eq] at hstartstop
      dsimp only at h₂
      rcases hround with ⟨hcs, hstart, hresult, hnext, hcursor, alternative, other, hac, hcc, haltc⟩ |
        ⟨hcf, hstop⟩
      · rw [hcs, Bool.not_true, if_neg Bool.false_ne_true, hstep.cursor_eq] at h₂
        have hastop : attempt.stop = child.stop := hresult.stop_eq
        by_cases hmore : committed.stop < child.stop
        · rw [if_pos hmore] at h₂
          rcases hcase with ⟨hstill, _⟩ | ⟨_, _, w, hw, h⟩
          · have hle' := hstill hresult.success
            omega
          · have hplaced : (attempt.withStatus .detected).Placed v.input position (g.Nullable rule) := by
              rw [hanswered.within.input_eq]
              exact (hu.cursor_eq ▸ hanswered.placed).withStatus .detected
            have hgrown := hnext.accept hvisible hanswered₂.within.sound hplaced (hcursor.trans hastop.symm) hw
            have hwinput : w.input = input := hw.input_eq.trans (hanswered.within.input_eq.trans huinput)
            have hcomb' : Match.LeftComb node.origin position base (iterations ++ [child])
                (attempt.withStatus .detected) :=
              .grown hcomb { hresult with stop_eq := hastop } hac hcc haltc
            have hle' : base.stop ≤ (attempt.withStatus .detected).stop := by
              rw [Match.stop_withStatus, hastop]
              omega
            have hacc' : (acc.push child).stop = (attempt.withStatus .detected).stop := hastop.symm
            obtain ⟨more, hm₂, hmstop, hmcomb⟩ := ih hgrown hwinput rfl hcomb' hle' hacc' h h₂
            refine ⟨child :: more, ?_, hmstop, ?_⟩
            · rw [hm₂, Match.children_push, List.append_assoc]
              rfl
            · have hne : child.isEmpty = false := by simp [Match.isEmpty, hstart, Nat.ne_of_lt hmore]
              rw [List.filter_cons, if_pos (by simp [hne])]
              rwa [List.append_assoc] at hmcomb
        · -- a round that takes no character is the last one
          have hsame : child.stop = committed.stop := by omega
          rw [if_neg hmore] at h₂
          obtain ⟨_, rfl, _⟩ := by simpa using h₂
          rcases hcase with ⟨_, _, rfl, _⟩ | ⟨_, hfurther, _⟩
          · refine ⟨[child], by simp, by rw [Match.stop_push, hsame], ?_⟩
            have hempty : child.isEmpty = true := by simp [Match.isEmpty, hstart, hsame]
            rw [List.filter_cons, if_neg (by simp [hempty]), List.filter_nil, List.append_nil]
            exact hcomb
          · omega
      · -- the repetition is over, and the attempt gives no more than a base
        rw [hcf, Bool.not_false, if_pos rfl] at h₂
        obtain ⟨w, _, h₂⟩ := Run.bind_eq_done_iff.1 h₂
        obtain ⟨_, rfl, _⟩ := by simpa using h₂
        rcases hcase with ⟨_, _, rfl, _⟩ | ⟨_, hfurther, _⟩
        · exact ⟨[], by simp, hacc.symm, by simpa using hcomb⟩
        · omega

end

/-- The first call of a recursive rule: its recursive alternatives fail, and if a base matches, this is the
seed that is grown. -/
theorem Recursive.first_call (hg : g.WellFormed) (hrec : g.Recursive rule tails bases)
    (hnode : g.node? rule = some node) (hpattern : node.pattern = .rule body)
    (hbody : g.HasPattern body (.choice (recs ++ bases)))
    (hrecs : List.Forall₂ (fun id tail => g.HasPattern id (.sequence (rule :: tail))) recs tails)
    (hs : s.Sound g .none) (hnone : s.remembered? rule = none) (h : g.run depth rule s = .done (m, t)) :
    ∃ d u n v, u.Sound g (Pending.none.add s.cursor rule) ∧ u.cursor = s.cursor ∧
      u.ShareOn (g.Apart rule) s ∧ matchAlternatives (g.run d) s.cursor bases u = .done (n, v) ∧
      (n.success = false ∧ m.success = false ∨
        n.success = true ∧ ∃ seed w k rounds z, seed.IsResult node.origin s.cursor n.stop ∧
          seed.children = n.children ∧ seed.status = .detected ∧ w.Sound g (Pending.none.add s.cursor rule) ∧
          w.input = s.input ∧ w.memo.get? s.cursor rule = some seed ∧ w.ShareOn (g.Apart rule) v ∧
          v.memo.FinalIn (g.Apart rule) w.memo ∧
          node.growRounds (g.run (d + 1)) rule s.cursor rounds 1 seed w = .done (k, m, z)) := by
  have hhidden := (isVisible_iff hnode).1 hrec.visible
  have hne : recs ≠ [] := by
    rintro rfl
    cases hrecs
    exact hrec.ne_nil rfl
  cases depth with
  | zero => cases h
  | succ depth =>
    have hnone' : (s.emit .memoCheck node.label s.cursor s.cursor).remembered? rule = none := by
      simpa [remembered?] using hnone
    rw [run, answer, hnode] at h
    simp only [hhidden, Bool.false_eq_true, if_false, hnone'] at h
    obtain ⟨first, w, hfirst, hcase⟩ := Node.answerFirst_cases h
    rw [cursor_emit] at hfirst hcase
    cases depth with
    | zero =>
      rw [Node.eval, hpattern, eval, matchRule] at hfirst
      cases hfirst
    | succ d =>
      have htrial : g.Trial rule s.cursor (.placeholder s.cursor)
          ((s.emit .memoCheck node.label s.cursor s.cursor).remember s.cursor rule (.placeholder s.cursor)) := {
        sound := by simpa using (hs.alike (alike_emit s .memoCheck node.label s.cursor s.cursor)).begin hrec.visible
        cursor_eq := by simp
        entry_eq := MemoTable.get?_insert_self (by simpa using hs.cursor_lt) }
      obtain ⟨s', n, t', hs', hn, ht', hsuccess, hstop, hchildren, horigin⟩ := eval_choice hg hpattern hbody hfirst
      rw [cursor_remember, cursor_emit] at hn
      obtain ⟨u, marked, hu, hmarked, hwhich, hshare⟩ := (htrial.alike hs').alternatives_fail hg hrec.visible hrecs
        rfl Status.noConfusion hn
      obtain rfl := hwhich.resolve_left fun h => hne h.1
      have hanswered := answered_of_eval hg hnode htrial.sound hfirst
      have hentry : w.memo.get? s.cursor rule = some ((Match.placeholder s.cursor).withStatus .detected) := by
        rw [ht'.memo_eq]
        exact (matchAlternatives_keepsMemo s.cursor (fun c _ => g.run_keepsMemo d c) _ _ _ hu).get?
          hmarked.entry_eq (by simp)
      refine ⟨d, u, n, t', hmarked.sound, hmarked.cursor_eq, hshare.trans ?_, hu, ?_⟩
      · have hmemo : s'.memo = s.memo.insert s.cursor rule (.placeholder s.cursor) := by
          rw [hs'.memo_eq, memo_remember, memo_emit]
        exact shareOn_insert (hs'.input_eq.trans (by simp)) hmemo
      · rcases hcase with ⟨_, hfs, v, k, z, hv, hgrow, _, _⟩ | ⟨hgrows, rfl, _⟩
        · have hplaced : (first.withStatus .detected).Placed w.input s.cursor (g.Nullable rule) := by
            rw [hanswered.within.input_eq]
            simpa using hanswered.placed.withStatus .detected
          have hmemo : v.memo = t'.memo.insert s.cursor rule (first.withStatus .detected) := by
            rw [hv.memo_eq, memo_remember, ht'.memo_eq]
          refine .inr ⟨hsuccess ▸ hfs, first.withStatus .detected, v, k, _, z, ⟨hfs, horigin, ?_, hstop⟩, hchildren,
            rfl, ?_, ?_, ?_, shareOn_insert (hv.input_eq.trans ht'.input_eq) hmemo, ?_, hgrow⟩
          · simpa using hanswered.placed.start_eq
          · exact (hanswered.within.sound.remember hrec.visible hplaced
              fun hp => absurd (.inr ⟨rfl, rfl⟩) hp).alike hv
          · exact hv.input_eq.trans (by simpa using hanswered.within.input_eq)
          · rw [hv.memo_eq]
            exact MemoTable.get?_insert_self (MemoTable.lt_positions_of_get? hentry)
          · rw [hmemo]
            exact ((MemoTable.Kept.refl _).finalIn _).insert (fun h => h .refl) _ _
        · have hfail : first.success = false := hgrows (by simp [hentry])
          exact .inl ⟨hsuccess ▸ hfail, hfail⟩

/-- A repetition goes on with the success that it has begun with. -/
theorem matchRounds_success {call : Evaluator} {min rounds count count' : Nat} {max? : Option Nat}
    {acc : Match} (h : matchRounds call iter min max? rounds count acc s = .done (count', m, t)) :
    m.success = acc.success := by
  induction rounds generalizing count acc s with
  | zero => nomatch h
  | succ rounds ih =>
    obtain ⟨_, hrounds, hcase⟩ := matchRounds_cases h
    obtain rfl := Nat.succ.inj hrounds
    rcases hcase with ⟨_, _, rfl, _⟩ | ⟨_, child, u, _, ⟨_, _, rfl, _⟩ | ⟨_, _, _, rfl, _⟩ | ⟨_, _, h⟩⟩
    · rfl
    · rfl
    · exact Match.success_push acc child
    · exact (ih h).trans (Match.success_push acc child)

/-- A match of the iteration: a base, and if that matches, the rounds of the repetition. -/
theorem iteration_run (hg : g.WellFormed) {loop first rest : NodeId}
    (hloop : g.HasPattern loop (.sequence [first, rest])) (hfirst : g.HasPattern first (.choice bases))
    (hrest : g.HasPattern rest (.repetition iter 0 none)) (hs : s.Sound g .none)
    (h : g.run depth loop s = .done (m, t)) :
    ∃ d s' n u, s'.Alike s ∧ matchAlternatives (g.run d) s.cursor bases s' = .done (n, u) ∧
      (n.success = false ∧ m.success = false ∧ m.stop = s.cursor ∨
        n.success = true ∧ m.success = true ∧ ∃ base repeated, m.children = [base, repeated] ∧
          m.stop = repeated.stop ∧ base.stop = n.stop ∧ base.children = n.children ∧
          ∃ d' u' rounds count acc v, u'.Alike u ∧ u'.Sound g .none ∧ u'.cursor = n.stop ∧
            matchRounds (g.run d') iter 0 none rounds 0 (.empty n.stop) u' = .done (count, acc, v) ∧
            repeated.stop = acc.stop ∧ repeated.children = acc.children) := by
  obtain ⟨d, label, s', k, t', origin, rfl, hs', hk, _, rfl, ht⟩ := run_pattern hg hloop (by simp [Pattern.kind]) h
  rw [eval, matchItems, hs'.cursor_eq] at hk
  obtain ⟨⟨base, u⟩, hbase, hk⟩ := Run.bind_eq_done_iff.1 hk
  obtain ⟨d₁, _, s₁, n, u₁, origin₁, rfl, hs₁, hn, _, rfl, hu₁⟩ :=
    run_pattern hg hfirst (by simp [Pattern.kind]) hbase
  rw [eval, hs₁.cursor_eq, hs'.cursor_eq] at hn
  have hanswered := (answered_of_run hg (hs.alike hs') hbase).2
  refine ⟨d₁, s₁, n, u₁, hs₁.trans hs', hn, ?_⟩
  dsimp only at hk
  cases hns : n.success with
  | false =>
    rw [Match.success_stamp, hns, if_neg Bool.false_ne_true] at hk
    obtain ⟨w, hw, hk⟩ := Run.bind_eq_done_iff.1 hk
    obtain ⟨rfl, _⟩ := Prod.mk.inj (Run.done.inj hk)
    exact .inl ⟨rfl, rfl, rfl⟩
  | true =>
    rw [Match.success_stamp, hns, if_pos rfl, matchItems] at hk
    obtain ⟨⟨repeated, v⟩, hrepeated, hk⟩ := Run.bind_eq_done_iff.1 hk
    obtain ⟨d₂, _, s₂, acc', v₂, origin₂, hd, hs₂, hacc, _, rfl, hv₂⟩ :=
      run_pattern hg hrest (by simp [Pattern.kind]) hrepeated
    rw [eval, matchRepetition] at hacc
    obtain ⟨⟨count, acc, w⟩, hrounds, hacc⟩ := Run.bind_eq_done_iff.1 hacc
    dsimp only at hacc
    rw [if_neg (Nat.not_lt_zero _)] at hacc
    obtain ⟨rfl, rfl⟩ := Prod.mk.inj (Run.done.inj hacc)
    have hsuccess : (acc.stamp origin₂).success = true := matchRounds_success hrounds
    dsimp only at hk
    rw [hsuccess, if_pos rfl, matchItems] at hk
    obtain ⟨rfl, rfl⟩ := Prod.mk.inj (Run.done.inj hk)
    have hcursor : s₂.cursor = n.stop := hs₂.cursor_eq.trans hanswered.cursor_eq
    rw [hcursor] at hrounds
    exact .inr ⟨rfl, rfl, n.stamp origin₁, acc.stamp origin₂, rfl, rfl, rfl, rfl, d₂, s₂, _, count, acc, w,
      hs₂.trans hu₁, hanswered.within.sound.alike hs₂, hcursor, hrounds, rfl, rfl⟩

/-- A rule that recurs directly on its left matches what the iteration of its recursive alternatives on its
bases matches. If it succeeds its tree is a comb of the iterations that take characters, and leans to the
left. -/
theorem Recursive.match_eq_iteration (hg : g.Built) (hrec : g.Recursive rule tails bases) {loop : NodeId}
    (hloop : g.Iterative loop tails bases) {input : String} {options options₂ : Options}
    (hposition : position ≤ input.length)
    (h : g.Matches rule ((Session.start input options).seek position) m t)
    (h₂ : g.Matches loop ((Session.start input options₂).seek position) m₂ t₂) :
    m.success = m₂.success ∧ m.stop = m₂.stop ∧ (m.success = true →
      ∃ base repeated node, m₂.children = [base, repeated] ∧ g.node? rule = some node ∧
        Match.LeftComb node.origin position base (repeated.children.filter fun i => !i.isEmpty) m) := by
  have hwf := hg.wellFormed
  obtain ⟨body, recs, ⟨node, hnode, hpattern⟩, hbody, hrecs⟩ := hrec.pattern
  obtain ⟨first, rest, iter, others, hl, hf, hr, hi, hothers⟩ := hloop
  obtain ⟨depth, h⟩ := h
  obtain ⟨depth', h₂⟩ := h₂
  have hlength : ∀ options, position ≤ (Session.start input options).length := fun options => by
    simpa [Session.start, Session.length, String.length_toList] using hposition
  have hs : ((Session.start input options).seek position).Sound g .none :=
    (sound_start g input options).seek (hlength options)
  have hs₂ : ((Session.start input options₂).seek position).Sound g .none :=
    (sound_start g input options₂).seek (hlength options₂)
  have hnone : ((Session.start input options).seek position).remembered? rule = none := by
    simp [remembered?, Session.start]
  have hfresh : ((Session.start input options).seek position).ShareOn (g.Apart rule)
      ((Session.start input options₂).seek position) := ⟨rfl, rfl, fun _ _ => rfl⟩
  have hanswered := (answered_of_run hwf hs h).2
  obtain ⟨d, u, n, v, husound, hucursor, hushare, hn, hcase⟩ :=
    hrec.first_call hwf hnode hpattern hbody hrecs hs hnone h
  obtain ⟨d', u₂, n₂, v₂, hu₂, hn₂, hcase₂⟩ := iteration_run hwf hl hf hr hs₂ h₂
  have hagree : u.AgreeOn (g.Apart rule) u₂ := {
    toShareOn := (hushare.trans hfresh).of_eq rfl rfl hu₂.input_eq hu₂.memo_eq
    cursor_eq := hucursor.trans hu₂.cursor_eq.symm }
  obtain ⟨rfl, hv⟩ := matchAlternatives_agrees position (fun c hc => run_agrees_of_apart (hrec.apart_base c hc))
    _ _ _ _ _ _ hagree hn hn₂
  rcases hcase with ⟨hfail, hmfail⟩ |
    ⟨hsuccess, seed, w, k, rounds, z, hseed, hschildren, hstatus, hwsound, hwinput, hentry, hwshare, hfinal, hgrow⟩
  · rcases hcase₂ with ⟨_, hmfail₂, hstop₂⟩ | ⟨hsuccess, _⟩
    · refine ⟨hmfail.trans hmfail₂.symm, ?_, fun h => ?_⟩
      · rw [(hanswered.placed.failure hmfail).1, hstop₂]
        rfl
      · rw [hmfail] at h
        cases h
    · rw [hfail] at hsuccess
      cases hsuccess
  · rcases hcase₂ with ⟨hfail, _⟩ |
      ⟨_, hmsuccess₂, base, repeated, hchildren, hmstop₂, hbstop, hbchildren, d₂, u', rounds₂, count, acc, z₂, hu',
        hu'sound, hu'cursor, hrounds, hrstop, hrchildren⟩
    · rw [hsuccess] at hfail
      cases hfail
    · have hstep : g.InStep rule position v.memo seed w u' := {
        sound := hwsound
        sound₂ := hu'sound
        entry_eq := hentry
        cursor_eq := hu'cursor.trans hseed.stop_eq.symm
        share := hwshare.trans (hv.toShareOn.of_eq rfl rfl hu'.input_eq hu'.memo_eq)
        final := hfinal }
      have hcomb : Match.LeftComb node.origin position base [] seed :=
        .base { hseed with stop_eq := hseed.stop_eq.trans hbstop.symm } (hschildren.trans hbchildren.symm)
      have hempty : (Match.empty n.stop).stop = seed.stop := hseed.stop_eq.symm
      -- when the bases are tried again after the last round, they give the seed once more
      have hreplay : ∀ (s' t' : Session) m', s'.input = (Session.start input options).input →
          s'.cursor = position → v.memo.FinalIn (g.Apart rule) s'.memo →
            matchAlternatives (g.run d) position bases s' = .done (m', t') → m'.stop = base.stop := by
        intro s' t' m' hinput hcursor hfin hm'
        rw [bases_replay hwf hrec.apart_base husound hn (hushare.input_eq.trans hinput.symm)
          (hucursor.trans hcursor.symm) hfin hm', hbstop]
      obtain ⟨more, haccchildren, hmstop, hmcomb⟩ := growRounds_iterates hwf hnode hrec.visible hpattern hbody hi
        hrecs hothers hrec.apart_tail hreplay hstep hwinput hstatus hcomb
        (le_of_eq (hbstop.trans hseed.stop_eq.symm)) hempty hgrow hrounds
      refine ⟨hmcomb.isResult.success.trans hmsuccess₂.symm, ?_, fun _ => ?_⟩
      · rw [hmstop, hmstop₂, hrstop]
      · refine ⟨base, repeated, node, hchildren, hnode, ?_⟩
        rw [hrchildren, haccchildren]
        exact hmcomb

/-- Sums of digits, once by the rule `2` and once by the iteration `9`. -/
def digitSums : Grammar := ⟨#[{ pattern := .charClass .digit }, { pattern := .literal "+" },
  { pattern := .rule 4, name? := some "Sum" }, { pattern := .sequence [2, 1, 0] }, { pattern := .choice [3, 0] },
  { pattern := .choice [0] }, { pattern := .sequence [1, 0] }, { pattern := .choice [6] },
  { pattern := .repetition 7 0 none }, { pattern := .sequence [5, 8] }]⟩

theorem digitSums_built : digitSums.Built :=
  ⟨[.add (.charClass .digit), .add (.literal "+"), .reserve "Sum" false, .add (.sequence [2, 1, 0]),
    .add (.choice [3, 0]), .define 2 4, .add (.choice [0]), .add (.sequence [1, 0]), .add (.choice [6]),
    .add (.repetition 7 0 none), .add (.sequence [5, 8])], rfl⟩

theorem digitSums_recursive : digitSums.Recursive 2 [[1, 0]] [0] := by
  have hleaf : ∀ id : Nat, id ≤ 1 → (digitSums.node? id).all (fun node => node.pattern.components == []) = true := by
    decide
  have hapart : ∀ id : Nat, id ≤ 1 → digitSums.Apart 2 id := by
    intro id hid
    refine apart_of_closed (fun id => id ≤ 1) ?_ hid (by decide)
    rintro id c hid ⟨node, hnode, hc⟩
    have hnil : node.pattern.components = [] := by simpa [hnode] using hleaf id hid
    simp [hnil] at hc
  refine ⟨by decide, by decide, ⟨4, [3], ⟨_, rfl, rfl⟩, ⟨_, rfl, rfl⟩, .cons ⟨_, rfl, rfl⟩ .nil⟩, ?_, ?_⟩
  · intro tail ht x hx
    obtain rfl : tail = [1, 0] := by simpa using ht
    rcases List.mem_pair.1 hx with rfl | rfl
    · exact hapart 1 (by decide)
    · exact hapart 0 (by decide)
  · intro x hx
    obtain rfl := List.mem_singleton.1 hx
    exact hapart 0 (by decide)

theorem digitSums_iterative : digitSums.Iterative 9 [[1, 0]] [0] :=
  ⟨5, 8, 7, [6], ⟨_, rfl, rfl⟩, ⟨_, rfl, rfl⟩, ⟨_, rfl, rfl⟩, ⟨_, rfl, rfl⟩, .cons ⟨_, rfl, rfl⟩ .nil⟩

/-- In `1+2+3` two iterations take characters, and so the sum is nested three deep. -/
theorem digitSums_match_eq_iteration : ∃ m t m₂ t₂,
    digitSums.Matches 2 ((Session.start "1+2+3" {}).seek 0) m t ∧
    digitSums.Matches 9 ((Session.start "1+2+3" {}).seek 0) m₂ t₂ ∧ m.success = true ∧ m.stop = 5 ∧
    m₂.success = true ∧ m₂.stop = 5 ∧
    ∃ base repeated node, m₂.children = [base, repeated] ∧ digitSums.node? 2 = some node ∧
      Match.LeftComb node.origin 0 base (repeated.children.filter fun i => !i.isEmpty) m := by
  have hmatch : ∀ id, (match digitSums.matchAt id (Session.start "1+2+3" {}) with
      | .done (m, _) => m.success && m.stop == 5
      | _ => false) = true → ∃ m t, digitSums.Matches id ((Session.start "1+2+3" {}).seek 0) m t ∧
        m.success = true ∧ m.stop = 5 := by
    intro id h
    split at h
    · rename_i m t hm
      unfold matchAt at hm
      split at hm
      · exact ⟨m, t, ⟨_, hm⟩, by simpa using h⟩
      · nomatch hm
    · nomatch h
  obtain ⟨m, t, hm, hsuccess, hstop⟩ := hmatch 2 (by decide +kernel)
  obtain ⟨m₂, t₂, hm₂, hsuccess₂, hstop₂⟩ := hmatch 9 (by decide +kernel)
  obtain ⟨_, _, hcomb⟩ := digitSums_recursive.match_eq_iteration digitSums_built digitSums_iterative
    (Nat.zero_le _) hm hm₂
  exact ⟨m, t, m₂, t₂, hm, hm₂, hsuccess, hstop, hsuccess₂, hstop₂, hcomb hsuccess⟩

end Grammar

end Packrat
