import Packrat.Proofs.Ending
import Packrat.Proofs.Faithful
import Packrat.Proofs.Keeping

/-!
# The memo table is without influence

Where left recursion is only direct, every match is what the node means: the same tree, and the cursor at the
same place. A run and the evaluation of a meaning are compared call by call. A rule that is found in the table
is either pending, and then its entry is the seed, or not, and then the entry is its meaning. A rule that is
not found is tried with a placeholder: if nobody asks for it, then the first trial is what every trial would
give, and if somebody does, the rule grows by the same trials on both sides.
-/

namespace Packrat

open Session Pattern

namespace Grammar

variable {g : Grammar} {pending : Pending} {id : NodeId} {node : Node} {depth position : Nat}
  {s t : Session} {m : Match}

/-- Runs of the given depth keep sessions faithful, and give what the nodes mean with the seeds that mirror
the entries they leave behind. -/
def RunsFaithfully (g : Grammar) (depth : Nat) : Prop :=
  ∀ pending id s m t, s.Faithful g pending → pending.LeadTo g s.cursor id → g.run depth id s = .done (m, t) →
    t.Faithful g pending ∧
      ∀ seeds : Seeds, seeds.Mirror g pending s.cursor id t.memo → g.Means seeds id s m

/-- A call that the node `id` makes from `s`, with the seeds that mirror the table in the end. -/
theorem call_faithful (hg : g.WellFormed) (hrun : g.RunsFaithfully depth) (hlead : pending.LeadTo g s.cursor id)
    {seeds : Seeds} {depth' : Nat} {c : NodeId} (hdepth : ∀ u n, u.input = s.input → u.cursor ≤ s.length →
      g.Means seeds c u n → Gives (g.meaning depth' seeds c) u n) :
    Follows (Tracks g pending) (fun table => seeds.Mirror g pending s.cursor id table) False Match.Similar
      (confined g pending (g.run depth) id s c) (g.meaning depth' seeds c) := by
  intro u n v h
  obtain ⟨hcan, h⟩ := confined_eq_done h
  have hleads := leads_of_within hcan.1 hcan.2
  have hanswered := (answered_of_run hg hcan.1.sound h).2
  refine ⟨fun hseeds => hseeds.of_kept (g.run_keepsMemo _ _ _ _ _ h), fun w huw hseeds => ?_⟩
  have hlead' : pending.LeadTo g u.cursor c := fun q r hp => (hlead q r hp).trans hleads
  obtain ⟨hv, hmeans⟩ := hrun pending c u n v huw.faithful hlead' h
  have hle : u.cursor ≤ s.length := hcan.1.length_eq ▸ hcan.1.sound.cursor_le
  have hgives := hdepth u n hcan.1.input_eq hle (hmeans seeds (hseeds.leads hleads))
  refine (gives_meaning hgives huw.toBeside (Nat.le_refl _)).mono ?_
  rintro ⟨k, w'⟩ ⟨hk, hinput, hcursor⟩
  refine ⟨hk, ⟨?_, ?_⟩, hv⟩
  · rw [hanswered.within.input_eq, huw.input_eq, hinput]
  · rw [hanswered.cursor_eq, hcursor]

/-- The calls inside a node are compared one by one, with the seeds at hand. -/
theorem eval_faithful (hg : g.WellFormed) (hrun : g.RunsFaithfully depth) (hnode : g.node? id = some node)
    (hs : s.Faithful g pending) (hlead : pending.LeadTo g s.cursor id)
    (h : node.eval (g.run depth) s = .done (m, t)) :
    t.Faithful g pending ∧ ∀ seeds : Seeds, seeds.Mirror g pending s.cursor id t.memo →
      ∃ depth', Gives (node.eval (g.meaning depth' seeds)) s m := by
  have hanswered := answered_of_eval hg hnode hs.sound h
  have hconfined := Node.eval_confined hnode hs.sound (run_answersInside hg hnode depth s) h
  have hseeded : ∀ seeds : Seeds, seeds.Mirror g pending s.cursor id t.memo → t.Faithful g pending ∧
      ∃ depth', Gives (node.eval (g.meaning depth' seeds)) s m := by
    intro seeds hseeds
    obtain ⟨depth', hdepth⟩ := g.exists_depth seeds node.pattern.components s
    have hfollow := (Node.eval_follows (Tracks.congruence g pending) Match.Similar.congruence node
      (fun c hc => call_faithful hg hrun hlead (hdepth c hc)) s m t hconfined).2 s ⟨.refl s, hs⟩ hseeds
    obtain ⟨⟨k, w⟩, hw, hk, htw⟩ := hfollow.exists_done
    refine ⟨htw.faithful, depth', ?_⟩
    rw [Gives, hw]
    refine ⟨hk, ?_, ?_⟩
    · rw [← htw.input_eq, hanswered.within.input_eq]
    · rw [← htw.cursor_eq, hanswered.cursor_eq]
  obtain ⟨seeds, hseeds⟩ := Seeds.exists_mirror g pending s.cursor id t.memo
  exact ⟨(hseeded seeds hseeds).1, fun seeds hseeds => (hseeded seeds hseeds).2⟩

/-- One trial of a rule that is being evaluated at `position`. The seed has to be what the entry of the rule is,
if the trial has asked for it; the table that the other seeds mirror may be a later one. -/
theorem trial_faithful (hg : g.WellFormed) (hrun : g.RunsFaithfully depth) (hnode : g.node? id = some node)
    (hnot : ¬ pending position id) (hlead : pending.LeadTo g position id)
    (hs : s.Faithful g (pending.add position id)) (hcursor : s.cursor = position)
    (h : node.eval (g.run depth) s = .done (m, t)) :
    t.Faithful g (pending.add position id) ∧
      ∀ (table : MemoTable) (seeds : Seeds) (seed : Match) (u : Session), (t.memo.erase position id).Kept table →
        seeds.Mirror g pending position id table →
        (∀ e, t.memo.get? position id = some e → e.status ≠ .possible → e.Similar seed) → s.Beside u →
          ∃ depth', Gives (node.eval (g.seeded depth' seeds position id seed)) u m := by
  subst hcursor
  obtain ⟨ht, hmeans⟩ := eval_faithful hg hrun hnode hs hlead.add h
  refine ⟨ht, fun table seeds seed u hkept hseeds hentry hu => ?_⟩
  obtain ⟨depth', hgives⟩ := hmeans _ (hseeds.set hnot hkept hentry)
  refine ⟨depth', hgives.follows ?_ hu⟩
  exact eval_seeded_follows Beside.congruence node seeds s.cursor id (Nat.le_refl depth') seed

/-- Growing a committed match keeps the session faithful, and from a match like the committed one the meaning
grows by the same trials. -/
theorem growRounds_faithful (hg : g.WellFormed) (hrun : g.RunsFaithfully depth) (hnode : g.node? id = some node)
    (hvisible : g.isVisible id = true) (hnot : ¬ pending position id) (hlead : pending.LeadTo g position id)
    {rounds iteration k : Nat} {committed : Match} (hs : s.Faithful g (pending.add position id))
    (hentry : s.memo.get? position id = some committed) (hstatus : committed.status ≠ .possible)
    (h : node.growRounds (g.run depth) id position rounds iteration committed s = .done (k, m, t)) :
    t.Faithful g (pending.add position id) ∧ ∀ seeds : Seeds, seeds.Mirror g pending position id t.memo →
      ∀ (last : Match) (rounds' : Nat) (u : Session), committed.Similar last → u.input = s.input →
        s.length - committed.stop < rounds' →
          ∃ depth', Gives (node.extend (g.seeded depth' seeds position id) position rounds' last) u m := by
  induction rounds generalizing iteration committed s with
  | zero => nomatch h
  | succ rounds ih =>
    have heval : KeepsMemo (node.eval (g.run depth)) := Node.eval_keepsMemo fun c _ => g.run_keepsMemo depth c
    have hcommitted : committed.stop ≤ s.length := (hs.sound.placed hentry).stop_le
    obtain ⟨s₁, attempt, s₂, hs₁, hle, hattempt, hcase⟩ := Node.growRounds_cases h
    have hcursor : s₁.cursor = position := hs₁.cursor_eq
    have hstart : s₁.Faithful g (pending.add position id) :=
      Faithful.alike (s := s.seek position) (hs.of_eq rfl rfl hle) hs₁
    obtain ⟨hs₂, htrial⟩ := trial_faithful hg hrun hnode hnot hlead hstart hcursor hattempt
    have hanswered := answered_of_eval hg hnode hstart.sound hattempt
    have hinput₂ : s₂.input = s.input := hanswered.within.input_eq.trans hs₁.input_eq
    have hentry₂ : s₂.memo.get? position id = some committed := by
      refine (heval _ _ _ hattempt).get? ?_ hstatus
      rw [hs₁.memo_eq]
      exact hentry
    -- the trial has found the committed match, and the meaning has one like it for a seed
    have hmeaning : (s₂.memo.erase position id).Kept t.memo → ∀ seeds : Seeds,
        seeds.Mirror g pending position id t.memo → ∀ (last : Match) (u : Session), committed.Similar last →
          u.input = s.input →
            ∃ depth', Gives (node.eval (g.seeded depth' seeds position id last)) (u.seek position) attempt := by
      intro hkept seeds hseeds last u hlast hu
      refine htrial t.memo seeds last (u.seek position) hkept hseeds ?_ ⟨?_, hcursor⟩
      · intro e he _
        obtain rfl := Option.some.inj (hentry₂.symm.trans he)
        exact hlast
      · exact hs₁.input_eq.trans hu.symm
    rcases hcase with ⟨hstill, _, rfl, ht⟩ | ⟨hsuccess, hfurther, w, hw, h⟩
    · refine ⟨hs₂.alike ht, fun seeds hseeds last rounds' u hlast hu hrounds => ?_⟩
      obtain ⟨rounds', rfl⟩ : ∃ r, rounds' = r + 1 := ⟨rounds' - 1, by omega⟩
      have hkept : (s₂.memo.erase position id).Kept t.memo := by
        rw [ht.memo_eq]
        exact s₂.memo.kept_of_erase position id
      obtain ⟨depth', hgives⟩ := hmeaning hkept seeds hseeds last u hlast hu
      have hlength := length_eq hu
      refine exists_extend_of_not_further hgives ?_ ?_ ?_ hlast
      · rwa [hlength]
      · rwa [← hlast.stop_eq]
      · rwa [← hlast.stop_eq, hlength]
    · have hplaced : attempt.Placed s₂.input position (g.Nullable id) := by
        rw [hanswered.within.input_eq]
        exact hcursor ▸ hanswered.placed
      have hpos : position < s₂.memo.positions := MemoTable.lt_positions_of_get? hentry₂
      have hgrown : w.Faithful g (pending.add position id) :=
        (hs₂.remember (.inr ⟨rfl, rfl⟩) hvisible (hplaced.withStatus .detected)).alike hw
      have hwentry : w.memo.get? position id = some (attempt.withStatus .detected) := by
        rw [hw.memo_eq]
        exact MemoTable.get?_insert_self hpos
      have hwinput : w.input = s.input := hw.input_eq.trans hinput₂
      obtain ⟨ht, hrest⟩ := ih hgrown hwentry (by simp) h
      have hkept : (s₂.memo.erase position id).Kept t.memo := by
        refine Node.growRounds_kept heval (MemoTable.get?_erase_self ..) ?_ h
        rw [hw.memo_eq]
        exact (s₂.memo.kept_of_erase position id).insert (MemoTable.get?_erase_self ..)
      refine ⟨ht, fun seeds hseeds last rounds' u hlast hu hrounds => ?_⟩
      obtain ⟨rounds', rfl⟩ : ∃ r, rounds' = r + 1 := ⟨rounds' - 1, by omega⟩
      obtain ⟨depth', hgives⟩ := hmeaning hkept seeds hseeds last u hlast hu
      obtain ⟨⟨next, v⟩, hnext, hsimilar, hinput, _⟩ := hgives.exists_done
      have hfurther' : last.stop < next.stop := by
        rwa [← hlast.stop_eq, ← hsimilar.stop_eq]
      refine exists_extend_of_further (length_eq hu ▸ hle) hnext hinput (hsimilar.success_eq ▸ hsuccess)
        hfurther' ?_
      refine hrest seeds hseeds next rounds' v (hsimilar.withStatus_left .detected) ?_ ?_
      · rw [hwinput, ← hu]
        exact hinput
      · have hattempted : attempt.stop ≤ s.length := length_eq hinput₂ ▸ hplaced.stop_le
        rw [length_eq hwinput, Match.stop_withStatus]
        omega

theorem answerFirst_faithful (hg : g.WellFormed) (hrun : g.RunsFaithfully depth) (hnode : g.node? id = some node)
    (hvisible : g.isVisible id = true) (hs : s.Faithful g pending) (hlead : pending.LeadTo g s.cursor id)
    (hnone : s.memo.get? s.cursor id = none) (h : node.answerFirst (g.run depth) id s = .done (m, t)) :
    t.Faithful g (pending.add s.cursor id) ∧ ∀ seeds : Seeds, seeds.Mirror g pending s.cursor id t.memo →
      ∃ depth', Gives (node.settle (g.seeded depth' seeds s.cursor id)) s m := by
  have hnot := hs.not_pending_of_none hnone
  have hbegin := hs.begin hvisible hnone
  have heval : KeepsMemo (node.eval (g.run depth)) := Node.eval_keepsMemo fun c _ => g.run_keepsMemo depth c
  obtain ⟨first, u, hfirst, hcase⟩ := Node.answerFirst_cases h
  obtain ⟨hu, htrial⟩ := trial_faithful hg hrun hnode hnot hlead hbegin rfl hfirst
  have hanswered := answered_of_eval hg hnode hbegin.sound hfirst
  have hinput : u.input = s.input := hanswered.within.input_eq
  have hplaced : first.Placed u.input s.cursor (g.Nullable id) := by
    rw [hanswered.within.input_eq]
    exact hanswered.placed
  have hsaved : ∀ status, (u.remember s.cursor id (first.withStatus status)).Faithful g (pending.add s.cursor id) :=
    fun status => hu.remember (.inr ⟨rfl, rfl⟩) hvisible (hplaced.withStatus status)
  have hkept : ∀ m', (u.memo.erase s.cursor id).Kept (u.remember s.cursor id m').memo :=
    fun m' => (u.memo.kept_of_erase s.cursor id).insert (MemoTable.get?_erase_self ..)
  have hentry : u.memo.get? s.cursor id = some (.placeholder s.cursor) ∨
      u.memo.get? s.cursor id = some ((Match.placeholder s.cursor).withStatus .detected) := by
    have hplaceholder : (s.remember s.cursor id (.placeholder s.cursor)).memo.get? s.cursor id =
        some (.placeholder s.cursor) := MemoTable.get?_insert_self hs.sound.cursor_lt
    exact (heval _ _ _ hfirst _ _ _ hplaceholder).imp_right And.right
  have hmeaning : (u.memo.erase s.cursor id).Kept t.memo → ∀ seeds : Seeds,
      seeds.Mirror g pending s.cursor id t.memo →
        ∃ depth', Gives (node.eval (g.seeded depth' seeds s.cursor id (.fail s.cursor))) s first := by
    intro hkept seeds hseeds
    refine htrial t.memo seeds (.fail s.cursor) s hkept hseeds ?_ ⟨rfl, rfl⟩
    intro e he _
    rcases hentry with he' | he'
    · obtain rfl := Option.some.inj (he'.symm.trans he)
      rfl
    · obtain rfl := Option.some.inj (he'.symm.trans he)
      rfl
  rcases hcase with ⟨_, hsuccess, v, k, w, hv, hgrow, hle, ht⟩ | ⟨hgrows, rfl, ht⟩
  · have hventry : v.memo.get? s.cursor id = some (first.withStatus .detected) := by
      rw [hv.memo_eq]
      exact MemoTable.get?_insert_self (hentry.elim MemoTable.lt_positions_of_get? MemoTable.lt_positions_of_get?)
    have hvfaithful := (hsaved .detected).alike hv
    obtain ⟨hw, hrest⟩ := growRounds_faithful hg hrun hnode hvisible hnot hlead hvfaithful hventry (by simp) hgrow
    refine ⟨Faithful.alike (s := w.seek m.stop) (hw.of_eq rfl rfl hle) ht, fun seeds hseeds => ?_⟩
    rw [ht.memo_eq, memo_seek] at hmeaning hseeds
    have hgrown : (u.memo.erase s.cursor id).Kept w.memo := by
      refine Node.growRounds_kept heval (MemoTable.get?_erase_self ..) ?_ hgrow
      rw [hv.memo_eq]
      exact hkept (first.withStatus .detected)
    obtain ⟨depth', hgives⟩ := hmeaning hgrown seeds hseeds
    obtain ⟨⟨next, x⟩, hnext, hsimilar, hxinput, _⟩ := hgives.exists_done
    have hvinput : v.input = s.input := hv.input_eq.trans hinput
    refine exists_settle_of_success hnext hxinput (hsimilar.success_eq ▸ hsuccess) ?_
    refine hrest seeds hseeds next _ x (hsimilar.withStatus_left .detected) (hxinput.trans hvinput.symm) ?_
    rw [length_eq hvinput, length_eq (t := s) hxinput, ← hsimilar.stop_eq, Match.stop_withStatus]
    exact Nat.lt_succ_self _
  · refine ⟨(hsaved .impossible).alike ht, fun seeds hseeds => ?_⟩
    rw [ht.memo_eq] at hmeaning hseeds
    obtain ⟨depth', hgives⟩ := hmeaning (hkept _) seeds hseeds
    have hsettles : ∃ depth', Gives (node.settle (g.seeded depth' seeds s.cursor id)) s first := by
      refine exists_settle_of_same hgives ?_ hs.sound.cursor_le (length_eq hinput ▸ hplaced.stop_le)
      intro hsuccess seed w hseed hw
      refine htrial _ seeds seed w (hkept _) hseeds ?_ ⟨hw.input_eq, hw.cursor_eq⟩
      intro e he hstatus
      rcases hentry with he' | he'
      · obtain rfl := Option.some.inj (he'.symm.trans he)
        exact absurd rfl hstatus
      · simp [hgrows (by simp [he'])] at hsuccess
    obtain ⟨depth'', hsettles⟩ := hsettles
    exact ⟨depth'', hsettles.of_similar (Match.Similar.withStatus_left (.refl first) .impossible).symm⟩

theorem found_faithful (hg : g.WellFormed) (hdirect : g.DirectOnly) (hvisible : g.isVisible id = true)
    (hs : s.Faithful g pending) (hlead : pending.LeadTo g s.cursor id) {memo : Match}
    (hmemo : s.remembered? id = some memo) (h : g.run (depth + 1) id s = .done (m, t)) :
    t.Faithful g pending ∧ ∀ seeds : Seeds, seeds.Mirror g pending s.cursor id t.memo → g.Means seeds id s m := by
  obtain ⟨hm, _, hinput, _, ht⟩ := ((faithful_iff (u := s) rfl).1 hs).found hvisible hmemo h
  have hanswered := (answered_of_run hg hs.sound h).2
  obtain ⟨hentry, hstatus⟩ := run_remembered hvisible hs.sound.cursor_lt h
  refine ⟨(faithful_iff hinput).2 ht, fun seeds hseeds => ?_⟩
  by_cases hp : pending s.cursor id
  · obtain ⟨node, hnode⟩ := exists_node_of_visible hvisible
    obtain ⟨seed, hseed, hsimilar⟩ := hseeds.eq_some (.refl g _ _) hp hentry hstatus
    exact means_of_seed hnode ((isVisible_iff hnode).1 hvisible) hseed hsimilar hanswered.placed.stop_le
  · rw [hm, if_neg (hs.sound.settled hmemo hp).status_ne]
    refine hs.means hmemo hp seeds fun q r hleads => ?_
    exact hseeds.eq_none hleads (hs.not_pending hdirect hlead hvisible hp hleads)

/-- A rule that is called for the first time is pending for a while, and then its entry is what it means. -/
theorem first_faithful (hg : g.WellFormed) (hdirect : g.DirectOnly) (hrun : g.RunsFaithfully depth)
    (hvisible : g.isVisible id = true) (hs : s.Faithful g pending) (hlead : pending.LeadTo g s.cursor id)
    (hnone : s.remembered? id = none) (h : g.run (depth + 1) id s = .done (m, t)) :
    t.Faithful g pending ∧ ∀ seeds : Seeds, seeds.Mirror g pending s.cursor id t.memo → g.Means seeds id s m := by
  obtain ⟨node, hnode⟩ := exists_node_of_visible hvisible
  have hhidden := (isVisible_iff hnode).1 hvisible
  have hanswered := (answered_of_run hg hs.sound h).2
  obtain ⟨hentry, _⟩ := run_remembered hvisible hs.sound.cursor_lt h
  have hnot := hs.not_pending_of_none hnone
  obtain ⟨s', hs', hfirst⟩ := run_of_not_remembered depth hnode hhidden hnone
  rw [hfirst] at h
  obtain ⟨ht, hsettles⟩ := answerFirst_faithful hg hrun hnode hvisible (hs.alike hs') (hs'.cursor_eq ▸ hlead)
    (hs'.cursor_eq ▸ hs'.memo_eq ▸ hnone) h
  rw [hs'.cursor_eq] at ht hsettles
  have hmeans : ∀ seeds : Seeds, seeds.Mirror g pending s.cursor id t.memo → g.Means seeds id s m := by
    intro seeds hseeds
    refine (means_of_settle hnode hhidden ?_ ?_).beside ⟨hs'.input_eq, hs'.cursor_eq⟩
    · rw [hs'.cursor_eq]
      exact hseeds.eq_none (.refl g _ _) hnot
    · rw [hs'.cursor_eq]
      exact hsettles seeds hseeds
  refine ⟨ht.finish hanswered.within.sound hentry fun seeds hclear => ?_, hmeans⟩
  have hmirror : seeds.Mirror g pending s.cursor id t.memo := {
    eq_none := fun hleads _ => hclear _ _ hleads
    eq_some := fun hleads hp => absurd hp (hs.not_pending hdirect hlead hvisible hnot hleads) }
  exact (hmeans seeds hmirror).beside ⟨hanswered.within.input_eq.symm, rfl⟩

theorem run_faithful (hg : g.WellFormed) (hdirect : g.DirectOnly) (depth : Nat) : g.RunsFaithfully depth := by
  induction depth with
  | zero => exact fun _ _ _ _ _ _ _ h => nomatch h
  | succ depth ih =>
    intro pending id s m t hs hlead h
    obtain ⟨hid, hanswered⟩ := answered_of_run hg hs.sound h
    obtain ⟨node, hnode⟩ := exists_node hid
    by_cases hvisible : g.isVisible id = true
    · cases hmemo : s.remembered? id with
      | some memo => exact found_faithful hg hdirect hvisible hs hlead hmemo h
      | none => exact first_faithful hg hdirect ih hvisible hs hlead hmemo h
    · have hhidden := (not_visible_iff hnode).1 hvisible
      rw [run_of_hidden hnode hhidden] at h
      obtain ⟨ht, hmeans⟩ := eval_faithful hg ih hnode hs hlead h
      exact ⟨ht, fun seeds hseeds => means_of_hidden hnode hhidden (hmeans seeds hseeds)⟩

theorem faithful_start (g : Grammar) (input : String) (options : Options) :
    (Session.start input options).Faithful g .none where
  sound := sound_start g input options
  held hp := hp.elim
  means h := by simp [Session.start] at h

/-- Suppose that left recursion is only direct, and that no cycle of leftmost components is all hidden. Then every
match in a session that has just been started, from any position of its input, is what the node means without a
memo table: the evaluation of its meaning ends, from some depth on with one and the same match, which differs from
the match of the run in statuses only, and leaves the cursor where the run leaves it. -/
theorem match_eq_meaning (hg : g.Built) (hdirect : g.DirectOnly) (hcycle : g.NoHiddenCycle) (input : String)
    (options : Options) (hle : position ≤ input.length) (hid : g.contains id = true) :
    ∃ m t n u enough, g.matchAt id ((Session.start input options).seek position) = .done (m, t) ∧
      (∀ depth, enough ≤ depth →
        g.meaning depth .none id ((Session.start input options).seek position) = .done (n, u)) ∧
      m.Similar n ∧ t.cursor = u.cursor := by
  have hlength : position ≤ (Session.start input options).length := by
    simpa [Session.start, Session.length, String.length_toList] using hle
  have hs : ((Session.start input options).seek position).Faithful g .none :=
    (faithful_start g input options).of_eq rfl rfl hlength
  obtain ⟨m, t, hruns⟩ := run_ends hg.wellFormed hcycle hs.sound (contains_iff.1 hid)
  have hrun := hruns _ (Nat.le_refl _)
  have hanswered := (answered_of_run hg.wellFormed hs.sound hrun).2
  obtain ⟨_, hmeans⟩ := run_faithful hg.wellFormed hdirect _ .none id _ m t hs (fun _ _ hp => hp.elim) hrun
  obtain ⟨enough, hgives⟩ := hmeans .none ⟨fun _ _ => rfl, fun _ hp => hp.elim⟩
  obtain ⟨⟨n, u⟩, hmeaning, hsimilar, _, hcursor⟩ := hgives.exists_done
  refine ⟨m, t, n, u, enough, ?_, fun depth hdepth => meaning_mono hmeaning hdepth, hsimilar, ?_⟩
  · rw [matchAt, if_pos hid]
    exact hrun
  · rw [hanswered.cursor_eq, hcursor]

/-- From the start of `1+2+3x`, a sum of three numbers is matched, and that is what a sum means there. -/
theorem sum_match_eq_meaning : ∃ m t n u enough,
    Reference.expression.build.grammar.matchAt 3 ((Session.start "1+2+3x" {}).seek 0) = .done (m, t) ∧
      (∀ depth, enough ≤ depth → Reference.expression.build.grammar.meaning depth .none 3
        ((Session.start "1+2+3x" {}).seek 0) = .done (n, u)) ∧
      m.Similar n ∧ n.success = true ∧ u.cursor = 5 := by
  have hposition : 0 ≤ "1+2+3x".length := Nat.zero_le _
  have hid : Reference.expression.build.grammar.contains 3 = true := by decide
  obtain ⟨m, t, n, u, enough, hmatch, hmeaning, hsimilar, hcursor⟩ := match_eq_meaning Reference.expression.built
    Reference.expression.directOnly Reference.expression.noHiddenCycle "1+2+3x" {} hposition hid
  have hcheck : (match Reference.expression.build.grammar.matchAt 3 ((Session.start "1+2+3x" {}).seek 0) with
      | .done (m, t) => m.success && t.cursor == 5
      | _ => false) = true := by decide +kernel
  rw [hmatch] at hcheck
  obtain ⟨hsuccess, hfive⟩ : m.success = true ∧ t.cursor = 5 := by simpa using hcheck
  exact ⟨m, t, n, u, enough, hmatch, hmeaning, hsimilar, hsimilar.success_eq ▸ hsuccess, hcursor ▸ hfive⟩

end Grammar

end Packrat
