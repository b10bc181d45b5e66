import Packrat.Proofs.DirectGrowth
import Packrat.Proofs.Names
import Packrat.Proofs.Traces

/-!
# The events of a run

What is recorded in the course of a call can be read as a trace, and leaves open what was open before the call. In
the calls of a pattern some trial is open, so that no call stands directly inside a growth. A growth is read
attempt by attempt.
-/

namespace Packrat

open Session Pattern Trace

namespace Grammar

variable {g : Grammar} {pending : Pending} {position depth : Nat} {id : NodeId} {node : Node} {s t : Session}
  {m : Match} {input : Array Char} {recording : Bool} {frames : List Frame}

/-- All events of a rule that is directly left-recursive are licensed, since no other rule has its label. -/
theorem licenses_of_direct (hg : g.Built) (hnode : g.node? id = some node) (hvisible : g.isVisible id = true)
    (hdirect : g.isDirectlyLeftRecursive id = true) (kind : EventKind) : g.Licenses kind node.label := by
  intro r hr hlabel hnot
  have hid : g.label id = node.label := by simp [label, hnode]
  obtain rfl := hg.label_injective hr hvisible (hlabel.trans hid.symm)
  simp [hdirect] at hnot

def RunsTrace (g : Grammar) (depth : Nat) : Prop :=
  ∀ pending id s m t input recording frames, s.Met g pending id → inGrowth frames = false →
    s.Traced g input recording frames → g.run depth id s = .done (m, t) → t.Traced g input recording frames

/-- A trial closes what it has opened. -/
theorem eval_traced (hg : g.WellFormed) (hrun : g.RunsTrace depth) (hnode : g.node? id = some node)
    (hs : s.Trying g pending id) (htraced : s.Traced g input recording frames)
    (h : node.eval (g.run depth) s = .done (m, t)) : t.Traced g input recording frames := by
  have hplaced := (answered_of_eval hg hnode hs.sound h).placed
  obtain ⟨n, u, hn, rfl, rfl⟩ := Node.eval_eq_done_iff.1 (eval_met hg (run_marks hg depth) hnode hs h).1
  have hcursor : s.cursor ≤ input.size := htraced.input_eq ▸ hs.sound.cursor_le
  have hopen : (s.emit .attempt node.label s.cursor s.cursor).Traced g input recording
      (.trial node.label s.cursor :: frames) :=
    htraced.emit (Nat.le_refl _) hcursor (licenses_of_fruitless rfl _) fun _ => rfl
  have hcalls : ∀ c ∈ node.pattern.components, CallsBelow
      (fun v => v.Traced g input recording (.trial node.label s.cursor :: frames))
      (Evaluator.only (fun c v => ∃ pending, v.Met g pending c) (g.run depth))
      (Evaluator.only (fun c v => ∃ pending, v.Met g pending c) (g.run depth)) c := by
    refine fun c _ v hv => Run.below_self fun ⟨k, w⟩ hw => ?_
    unfold Evaluator.only at hw
    split at hw
    · rename_i hmet
      obtain ⟨pending, hmet⟩ := hmet
      exact hrun pending c v k w input recording _ hmet rfl hv hw
    · nomatch hw
  have hu := ((Pattern.eval_below (Traced.quiet g input recording _) node.label node.pattern hcalls hopen).of_done hn).2
  have hstart : n.start = s.cursor := hplaced.start_eq
  have hle : s.cursor ≤ n.stop := hplaced.start_le_stop
  have hsize : n.stop ≤ input.size := htraced.input_eq ▸ hplaced.stop_le
  split
  · rw [hstart]
    exact hu.emit hle hsize (licenses_of_fruitless rfl _) fun _ => read_accept
  · exact hu.emit (Nat.le_refl _) hcursor (licenses_of_fruitless rfl _) fun _ => read_reject

theorem trying_again (hs : s.Sound g (pending.add position id)) (hlead : pending.LeadTo g position id)
    (hmarked : s.memo.Marked g) (hposition : position ≤ s.length) (kind : EventKind) (label : String)
    (start stop : Nat) : ((s.emit kind label start stop).seek position).Trying g (pending.add position id) id where
  sound := (hs.seek hposition).alike ((alike_emit s kind label start stop).seek position)
  lead := hlead.add
  marked := by simpa using hmarked

/-- A growth is read attempt by attempt. `n` of them have been accepted. -/
theorem growRounds_traced (hg : g.WellFormed) (hrun : g.RunsTrace depth) (hnode : g.node? id = some node)
    (hvisible : g.isVisible id = true) (hrec : g.isLeftRecursive id = true)
    (hlicensed : ∀ kind, g.Licenses kind node.label) (hlead : pending.LeadTo g position id) {rounds n k : Nat}
    {committed : Match} (hs : s.Sound g (pending.add position id)) (hmarked : s.memo.Marked g)
    (htraced : s.Traced g input recording (.growth node.label position committed.stop n .waiting :: frames))
    (hle : position ≤ committed.stop) (hsize : committed.stop ≤ input.size)
    (h : node.growRounds (g.run depth) id position rounds (n + 1) committed s = .done (k, m, t)) :
    t.Traced g input recording (.growth node.label position m.stop k .over :: frames) := by
  induction rounds generalizing n committed s with
  | zero => nomatch h
  | succ rounds ih =>
    obtain ⟨hposition, attempt, v, hattempt, hcase⟩ := Node.growRounds_eq_done_iff.1 h
    have htrying := trying_again hs hlead hmarked hposition (.growAttempt (n + 1)) node.label position committed.stop
    have hopen : (s.emit (.growAttempt (n + 1)) node.label position committed.stop).Traced g input recording
        (.growth node.label position committed.stop n .trying :: frames) :=
      htraced.emit hle hsize (hlicensed _) fun _ => read_growAttempt
    have hv := eval_traced hg hrun hnode htrying (hopen.seek position) hattempt
    have hvmarked := (eval_met hg (run_marks hg depth) hnode htrying hattempt).2
    have hanswered := answered_of_eval hg hnode htrying.sound hattempt
    have hinput : v.input = input := hv.input_eq
    have hplaced : attempt.Placed input position (g.Nullable id) := by
      rw [← hinput, hanswered.within.input_eq]
      exact hanswered.placed
    rcases hcase with ⟨_, rfl, rfl, rfl⟩ | ⟨_, _, rfl, rfl, rfl⟩ | ⟨_, hfurther, h⟩
    · exact hv.emit (Nat.le_refl _) (Nat.le_trans hle hsize) (hlicensed _) fun _ => read_growFail
    · exact hv.emit hplaced.start_le_stop hplaced.stop_le (hlicensed _) fun _ => read_growReject
    · have haccepted : (v.emit (.growAccept (n + 1)) node.label position attempt.stop).Traced g input recording
          (.growth node.label position attempt.stop (n + 1) .waiting :: frames) :=
        hv.emit hplaced.start_le_stop hplaced.stop_le (hlicensed _) fun _ => read_growAccept hfurther
      have halike : ((v.emit (.growAccept (n + 1)) node.label position attempt.stop).save position id node.label
          (attempt.withStatus .detected)).Alike (v.remember position id (attempt.withStatus .detected)) :=
        (alike_save ..).trans ((alike_emit ..).remember ..)
      have hsaved := hanswered.within.sound.remember hvisible ((hinput ▸ hplaced).withStatus .detected)
        fun hp => absurd (.inr ⟨rfl, rfl⟩) hp
      refine ih (hsaved.alike halike) ?_ ?_ ?_ ?_ h
      · rw [halike.memo_eq]
        exact hvmarked.insert fun _ => hrec
      · refine haccepted.save position id node.label ?_ hplaced.stop_le
        exact hplaced.start_eq.symm ▸ hplaced.start_le_stop
      · exact hplaced.start_le_stop
      · exact hplaced.stop_le

/-- The growth of a seed is read, whether it is that of a directly left-recursive rule or consists of one attempt. -/
theorem growth_traced (hg : g.Built) (hrun : g.RunsTrace depth) (hnode : g.node? id = some node)
    (hvisible : g.isVisible id = true) (hlead : pending.LeadTo g position id)
    (hs : s.Trying g (pending.add position id) id) (hcursor : s.cursor = position) {first : Match} {u w : Session}
    (hfirst : node.eval (g.run depth) s = .done (first, u))
    (hmark : ((u.memo.get? position id).map Match.status).getD .possible = .detected) (hsuccess : first.success = true)
    (ht : t.Alike (u.remember position id (first.withStatus .detected)))
    (htraced : t.Traced g input recording (.growth node.label position first.stop 0 .waiting :: frames)) {rounds k : Nat}
    (h : node.growRounds (g.run depth) id position (rounds + 1) 1 (first.withStatus .detected) t = .done (k, m, w)) :
    w.Traced g input recording (.growth node.label position m.stop k .over :: frames) ∧
      g.Licenses (.growTerminate k) node.label := by
  have hwf := hg.wellFormed
  have humarked := (eval_met hwf (run_marks hwf depth) hnode hs hfirst).2
  have hrec := humarked.isLeftRecursive hmark
  have hanswered := answered_of_eval hwf hnode hs.sound hfirst
  have hinput : u.input = input := ht.input_eq.symm.trans htraced.input_eq
  have hplaced : first.Placed input position (g.Nullable id) := by
    rw [← hinput, ← hcursor, hanswered.within.input_eq]
    exact hanswered.placed
  have hsound : t.Sound g (pending.add position id) :=
    (hanswered.within.sound.remember hvisible ((hinput ▸ hplaced).withStatus .detected)
      fun hp => absurd (.inr ⟨rfl, rfl⟩) hp).alike ht
  have hmarked : t.memo.Marked g := by
    rw [ht.memo_eq]
    exact humarked.insert fun _ => hrec
  cases hdirect : g.isDirectlyLeftRecursive id with
  | true =>
    have hlicensed := licenses_of_direct hg hnode hvisible hdirect
    refine ⟨growRounds_traced hwf hrun hnode hvisible hrec hlicensed hlead hsound hmarked ?_ ?_ ?_ h, hlicensed _⟩
    · exact htraced
    · exact hplaced.start_le_stop
    · exact hplaced.stop_le
  | false =>
    have hnot : ¬ g.CallsDirectly id id := fun hpath => by simp [isDirectlyLeftRecursive_of_path hpath] at hdirect
    obtain ⟨attempt, v, hattempt, _, _, _, hrounds⟩ := growRounds_of_not_direct hwf hnot hnode hs.sound hcursor
      hfirst hsuccess rfl ht rounds
    obtain ⟨rfl, rfl, rfl⟩ := by simpa using hrounds.symm.trans h
    have hposition : position ≤ t.length := by
      rw [length, htraced.input_eq]
      exact Nat.le_trans hplaced.start_le_stop hplaced.stop_le
    have htrying := trying_again hsound hlead hmarked hposition (.growAttempt 1) node.label position first.stop
    have hopen : (t.emit (.growAttempt 1) node.label position first.stop).Traced g input recording
        (.growth node.label position first.stop 0 .trying :: frames) :=
      htraced.emit hplaced.start_le_stop hplaced.stop_le (licenses_of_fruitless rfl _) fun _ => read_growAttempt
    refine ⟨?_, licenses_of_fruitless rfl _⟩
    exact (eval_traced hwf hrun hnode htrying (hopen.seek position) hattempt).emit hplaced.start_le_stop
      hplaced.stop_le (licenses_of_fruitless rfl _) fun _ => read_growReject

/-- The first call of a rule closes what it has opened. -/
theorem answerFirst_traced (hg : g.Built) (hrun : g.RunsTrace depth) (hnode : g.node? id = some node)
    (hvisible : g.isVisible id = true) (hs : s.Met g pending id) (hframes : inGrowth frames = false)
    (htraced : s.Traced g input recording frames) (h : node.answerFirst (g.run depth) id s = .done (m, t))
    (hstart : s.cursor ≤ m.stop) : t.Traced g input recording frames := by
  have hwf := hg.wellFormed
  obtain ⟨first, u, hfirst, hcase⟩ := Node.answerFirst_eq_done_iff.1 h
  have htrying := hs.begin hvisible
  have hu := eval_traced hwf hrun hnode htrying (htraced.remember ..) hfirst
  have hanswered := answered_of_eval hwf hnode htrying.sound hfirst
  have hplaced : first.Placed input s.cursor (g.Nullable id) := htraced.input_eq ▸ hanswered.placed
  have hsaved : ∀ status, (u.save s.cursor id node.label (first.withStatus status)).Traced g input recording frames :=
    fun status => hu.save s.cursor id node.label (hplaced.start_eq.symm ▸ hplaced.start_le_stop) hplaced.stop_le
  split at hcase
  · rename_i hgrows
    have hopen : ((u.save s.cursor id node.label (first.withStatus .detected)).emit .beginGrow node.label first.start
        first.stop).Traced g input recording (.growth node.label s.cursor first.stop 0 .waiting :: frames) := by
      rw [hplaced.start_eq]
      exact (hsaved .detected).emit hplaced.start_le_stop hplaced.stop_le (licenses_of_fruitless rfl _)
        fun _ => read_beginGrow hframes
    obtain ⟨k, w, hrounds, hle, rfl⟩ := Node.grow_eq_done_iff.1 hcase
    have hgrown := growth_traced hg hrun hnode hvisible hs.lead.leadTo htrying rfl hfirst hgrows.1 hgrows.2
      ((alike_emit ..).trans (alike_save ..)) hopen hrounds
    exact (hgrown.1.emit hstart (hgrown.1.input_eq ▸ hle) hgrown.2 fun _ => read_growTerminate).seek _
  · obtain ⟨rfl, rfl⟩ := hcase
    exact hsaved .impossible

theorem run_traced (hg : g.Built) (depth : Nat) : g.RunsTrace depth := by
  induction depth with
  | zero => exact fun pending id s m t input recording frames _ _ _ h => nomatch h
  | succ depth ih =>
    intro pending id s m t input recording frames hs hframes htraced h
    obtain ⟨hid, hanswered⟩ := answered_of_run hg.wellFormed hs.sound h
    obtain ⟨node, hnode⟩ := exists_node hid
    have hcursor : s.cursor ≤ input.size := htraced.input_eq ▸ hs.sound.cursor_le
    by_cases hvisible : g.isVisible id = true
    · have hhidden := (isVisible_iff hnode).1 hvisible
      have hnoted : (s.emit .memoCheck node.label s.cursor s.cursor).Traced g input recording frames :=
        htraced.note (Nat.le_refl _) hcursor rfl fun _ => rfl
      rw [run] at h
      cases hmemo : s.remembered? id with
      | none =>
        rw [answer_of_absent hnode hhidden hmemo] at h
        exact answerFirst_traced hg ih hnode hvisible (hs.alike (alike_emit ..)) hframes hnoted h
          (by simpa using hanswered.placed.start_le_stop)
      | some memo =>
        have hplaced := hs.sound.placed hmemo
        rw [answer_of_remembered hnode hhidden hmemo, Node.answerFromMemo_eq (by simpa using hplaced)] at h
        split at h
        · obtain ⟨rfl, rfl⟩ := Prod.mk.inj (Run.done.inj h)
          exact ((hnoted.seek _).remember _ _ _).note (Nat.le_refl _) (by simpa using hcursor) rfl
            fun _ => read_identifyLeftRecursion hframes
        · obtain ⟨rfl, rfl⟩ := Prod.mk.inj (Run.done.inj h)
          refine (hnoted.seek _).note (hplaced.start_eq.symm ▸ hplaced.start_le_stop) ?_ rfl fun _ => rfl
          exact htraced.input_eq ▸ hplaced.stop_le
    · rw [run_of_hidden hnode ((not_visible_iff hnode).1 hvisible)] at h
      exact eval_traced hg.wellFormed ih hnode hs.trying htraced h

/-- What has been recorded in a session in use can be read, and leaves nothing open. -/
theorem Reached.traced (hg : g.Built) (hs : g.Reached s) : s.Traced g s.input s.history?.isSome [] := by
  induction hs with
  | start input options =>
    have hstart := Traced.start g input options
    rwa [← hstart.recording_eq] at hstart
  | @matched s t m id hs h ih =>
    obtain ⟨depth, h⟩ := h
    have ht := run_traced hg depth .none id s m t _ _ _ (hs.met hg.wellFormed id) rfl ih h
    rwa [← ht.input_eq, ← ht.recording_eq] at ht
  | refused hs h ih =>
    obtain rfl := hs.eq_of_refused hg.wellFormed h
    exact ih
  | moved _ h ih =>
    obtain ⟨_, rfl⟩ := eq_seek_of_moveTo h
    exact ih.seek _
  | advanced _ h ih =>
    obtain ⟨_, rfl⟩ := eq_seek_of_next h
    exact ih.seek _
  | forgot _ ih => exact ih.of_eq rfl rfl

/-- In every session in use that records its events, a match that ends leaves a history which can be read from its
first event to its last, with nothing left open; and every event lies in the input and shows the text of its span. -/
theorem Reached.history_is_well_formed (hg : g.Built) (hs : g.Reached s) (hrecording : s.history?.isSome = true)
    (h : g.Matches id s m t) :
    ∃ history, t.history? = some history ∧ readAll history = some [] ∧ ∀ e ∈ history, e.LiesIn s.input := by
  obtain ⟨depth, h⟩ := h
  have ht := run_traced hg depth .none id s m t _ _ _ (hs.met hg.wellFormed id) rfl (hs.traced hg) h
  obtain ⟨history, hhistory⟩ := Option.isSome_iff_exists.1 (ht.recording_eq.trans hrecording)
  exact ⟨history, hhistory, ht.readAll_eq history hhistory, fun e he => (ht.events history hhistory e he).1⟩

/-- The sum `1+2` grows once, in a history with one accepted attempt. -/
theorem sum_history_is_well_formed : ∃ m t history,
    Reference.expression.build.grammar.Matches 3 (Session.start "1+2" ⟨true, 10, true⟩) m t ∧
      t.history? = some history ∧ history.growAccepts = 1 ∧ readAll history = some [] := by
  obtain ⟨m, t, h, hgrow⟩ := exists_matches
    (by decide +kernel : (Reference.expression.build.grammar.matchAt 3
      (Session.start "1+2" ⟨true, 10, true⟩)).Yields False False
      fun a => a.2.history?.map History.growAccepts = some 1)
  obtain ⟨history, hhistory, hread, _⟩ := Reached.history_is_well_formed Reference.expression.built
    (.start "1+2" ⟨true, 10, true⟩) rfl h
  refine ⟨m, t, history, h, hhistory, ?_, hread⟩
  simpa [hhistory] using hgrow

end Grammar

end Packrat
